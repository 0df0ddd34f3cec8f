import VersionedRecords.Proofs.Editing

/-!
Drafts and their references.

A draft begun over a version of a record knows that version for good.  Whatever it has not touched
is the value that the version has there, down to where it was put together, and what has been
touched stays touched.  So building gives the version itself as long as nothing is touched, and
otherwise a new one that has the untouched parts in common with it.
-/

namespace VersionedRecords

variable {models : String → Layout}

namespace Draft

/-- The first draft is the second or lies below it, at any depth. -/
inductive Within : Draft → Draft → Prop
  | refl (d : Draft) : Within d d
  | under {d e f : Draft} {w : Working Draft} (he : Within e f) (hf : f ∈ w.drafts)
      (hw : Slot.touched w ∈ d.slots) : Within e d

/-- A draft without a reference is touched throughout.  A draft with one is a draft of the same
record, and what is not touched is the value of the reference. -/
structure Anchored (d : Draft) : Prop where
  touched_of_none : d.reference = none → ∀ s ∈ d.slots, s.isTouched = true
  of_reference : ∀ r, d.reference = some r → r.identity = d.identity ∧
    List.Forall₂ (fun s v => s.isTouched = true ∨ s = .deferred v) d.slots r.fields

/-- The second draft has the key and the reference of the first, and each of its slots is touched or
as it was.  So what is touched stays touched. -/
structure Continues (d d' : Draft) : Prop where
  identity_eq : d'.identity = d.identity
  reference_eq : d'.reference = d.reference
  advances : List.Forall₂ Slot.Advances d.slots d'.slots

/-- Building the draft gives a version of its record: the reference itself exactly if there is one
and nothing is touched, and otherwise a new version, in which each field that is not touched has the
very value of the reference. -/
structure Yields (stamp : Nat) (path : List Nat) (d : Draft) (m : Snapshot) : Prop where
  buildAt_eq : d.buildAt stamp path = some m
  identity_eq : m.identity = d.identity
  shared_iff : (∃ r, d.reference = some r ∧ m.isShared r = true) ↔
    d.reference.isSome = true ∧ d.isTouched = false
  origin_eq : ¬(d.reference.isSome = true ∧ d.isTouched = false) → m.origin = ⟨stamp, path⟩
  field_eq : ∀ r, d.reference = some r → ∀ (i : Nat) (v : Value Snapshot),
    d.slots[i]? = some (.deferred v) → m.fields[i]? = some v ∧ r.fields[i]? = some v

/-! ### What coherent drafts have to do with their references -/

theorem Within.coherent {d e : Draft} (he : e.Within d) (hd : d.Coherent models) :
    e.Coherent models := by
  induction he with
  | refl d => exact hd
  | under _ hf hw ih => exact ih (coherent_of_mem_slots hd hw hf)

theorem Grounded.anchored {d : Draft} (hd : Grounded models d.identity d.slots d.reference) :
    d.Anchored := by
  constructor
  · intro hnone
    rw [hnone] at hd
    exact hd
  · intro r hr
    rw [hr] at hd
    exact ⟨hd.1, hd.2.2⟩

/-! ### What edits do to slots -/

end Draft

theorem Change.advances_applyTo (c : Change) {d : Draft}
    (hd : d.slots.length = d.layout.kinds.length) :
    List.Forall₂ Slot.Advances d.slots (c.applyTo d).slots := by
  rw [applyTo_eq]
  split
  · exact Draft.advances_zeroSlots hd
  · exact advances_applyFields c.fields d.slots

/-- Each edit leaves a slot as it is or touches it. -/
theorem Edit.advances_run (e : Edit) {d : Draft}
    (hd : d.slots.length = d.layout.kinds.length) :
    List.Forall₂ Slot.Advances d.slots (e.run d).1.slots := by
  have hsame : List.Forall₂ Slot.Advances d.slots d.slots := List.forall₂_same.2 fun s _ => .refl s
  cases e with
  | reset =>
      rw [Edit.run]
      exact Draft.advances_zeroSlots hd
  | materialise =>
      rw [Edit.run]
      exact d.advances_materialise
  | setLastIntent i =>
      rw [Edit.run]
      exact hsame
  | apply c =>
      rw [Edit.run_apply]
      split
      · exact c.advances_applyTo hd
      · exact hsame
  | look =>
      rw [Edit.run]
      exact hsame
  | field name e =>
      rcases Edit.run_field_cases name e d with ⟨-, hrun⟩ | ⟨i, s, -, -, hrun⟩
      · rw [hrun]
        exact hsame
      · rw [hrun]
        exact d.advances_set i _

namespace Draft

theorem Continues.refl (d : Draft) : d.Continues d :=
  ⟨rfl, rfl, List.forall₂_same.2 fun s _ => .refl s⟩

theorem Continues.trans {d d' d'' : Draft} (h : d.Continues d') (h' : d'.Continues d'') :
    d.Continues d'' where
  identity_eq := h'.identity_eq.trans h.identity_eq
  reference_eq := h'.reference_eq.trans h.reference_eq
  advances := forall₂_trans (fun _ _ _ hs hs' => hs.trans hs') h.advances h'.advances

theorem Continues.length_slots {d d' : Draft} (h : d.Continues d')
    (hd : d.slots.length = d.layout.kinds.length) :
    d'.slots.length = d'.layout.kinds.length := by
  have hlayout : d'.layout = d.layout := congrArg Identity.layout h.identity_eq
  rw [← h.advances.length_eq, hlayout, hd]

theorem continues_run (e : Edit) {d : Draft} (hd : d.slots.length = d.layout.kinds.length) :
    d.Continues (e.run d).1 :=
  ⟨(e.frame_run d).1, (e.frame_run d).2, e.advances_run hd⟩

theorem continues_edited (edits : List Edit) {d : Draft}
    (hd : d.slots.length = d.layout.kinds.length) : d.Continues (d.edited edits) := by
  induction edits generalizing d with
  | nil => exact .refl d
  | cons e edits ih =>
      have hrun := continues_run e hd
      exact hrun.trans (ih (hrun.length_slots hd))

theorem Continues.grounded {d d' : Draft} (h : d.Continues d')
    (hd : Grounded models d.identity d.slots d.reference) :
    Grounded models d'.identity d'.slots d'.reference := by
  rw [h.identity_eq, h.reference_eq]
  exact hd.advance h.advances

/-! ### What building makes of slots -/

theorem getElem?_freezeSlots (stamp : Nat) (path : List Nat) (slots : List (Slot Snapshot Draft))
    (n i : Nat) :
    (freezeSlots stamp path n slots)[i]? =
      slots[i]?.map fun s => freezeSlot stamp ((n + i) :: path) s := by
  induction slots generalizing n i with
  | nil => simp [freezeSlots]
  | cons s slots ih =>
      rw [freezeSlots]
      cases i with
      | zero => simp
      | succ i => simp [ih, Nat.add_right_comm, Nat.add_assoc]

/-- A field that is not touched keeps the value of the reference. -/
theorem Anchored.field_eq {d : Draft} (hd : d.Anchored) {r : Snapshot} (hr : d.reference = some r)
    {i : Nat} {v : Value Snapshot} (hi : d.slots[i]? = some (.deferred v)) :
    r.fields[i]? = some v := by
  have hfields := (hd.of_reference r hr).2
  obtain ⟨v', hv', htouched | hdeferred⟩ := exists_getElem?_left hfields.flip hi
  · cases htouched
  · cases hdeferred
    exact hv'

/-- Building a draft that is not deleted succeeds, and the parts that are not touched are those of
the reference. -/
theorem Anchored.exists_yields {d : Draft} (hd : d.Anchored) (hdeleted : d.isDeleted = false)
    {stamp : Nat} (hfresh : ∀ r ∈ d.reference, r.origin.stamp ≠ stamp) (path : List Nat) :
    ∃ m, d.Yields stamp path m := by
  by_cases hreuse : d.reference.isSome = true ∧ d.isTouched = false
  · obtain ⟨hsome, huntouched⟩ := hreuse
    obtain ⟨r, hr⟩ := Option.isSome_iff_exists.1 hsome
    refine ⟨r, ?_, (hd.of_reference r hr).1, ?_, fun hnot => absurd ⟨hsome, huntouched⟩ hnot, ?_⟩
    · have hslots : d.slots.any Slot.isTouched = false := huntouched
      rw [buildAt_eq, hdeleted, hr, hslots]
      rfl
    · exact iff_of_true ⟨r, hr, Snapshot.isShared_iff_eq.2 rfl⟩ ⟨hsome, huntouched⟩
    · intro r' hr' i v hi
      obtain rfl : r = r' := Option.some.inj (hr.symm.trans hr')
      exact ⟨hd.field_eq hr hi, hd.field_eq hr hi⟩
  · have hbuild : d.buildAt stamp path =
        some ⟨d.layout, d.key, ⟨stamp, path⟩, freezeSlots stamp path 0 d.slots⟩ := by
      rw [buildAt_eq, hdeleted, if_neg Bool.false_ne_true]
      split
      · next r htouched hr => exact absurd ⟨by rw [hr]; rfl, htouched⟩ hreuse
      · rfl
    refine ⟨_, hbuild, rfl, ?_, fun _ => rfl, ?_⟩
    · refine iff_of_false ?_ hreuse
      rintro ⟨r, hr, hshared⟩
      have heq := Snapshot.isShared_iff_eq.1 hshared
      exact hfresh r hr (congrArg (fun m => m.origin.stamp) heq).symm
    · intro r hr i v hi
      refine ⟨?_, hd.field_eq hr hi⟩
      rw [getElem?_freezeSlots, hi]
      rfl

/-! ### Drafts that can be come by -/

theorem Reachable.skeleton (models : String → Layout) (s : Snapshot) :
    s.skeleton.Reachable models :=
  .new s.layout s.key

theorem Reachable.toDraft {c : Change} (hc : c.Conforms models) : c.toDraft.Reachable models := by
  have hrun : ((Edit.apply c).run (.new c.layout c.key)).1 = c.toDraft := by
    rw [Edit.run_apply, if_pos (show (Draft.new c.layout c.key).key = c.key from rfl)]
    rfl
  exact hrun ▸ .run (.new c.layout c.key) (.apply hc)

/-- However a draft was come by, at whatever depth it lies and whatever is done to it, its key and
its reference stay, what is touched stays touched, and what is not touched is the value of the
reference.  So building gives the reference itself exactly if nothing is touched, and otherwise a
new version that has the very values of the reference wherever nothing is touched. -/
theorem stands_for_reference {d e : Draft} (hd : d.Reachable models) (he : e.Within d)
    (edits : List Edit) :
    e.Continues (e.edited edits) ∧ (e.edited edits).Anchored ∧
      ((e.edited edits).isDeleted = false →
        ∀ stamp path, (∀ r ∈ e.reference, r.origin.stamp ≠ stamp) →
          ∃ m, (e.edited edits).Yields stamp path m) := by
  have hcoherent := he.coherent hd.coherent
  have hcontinues := continues_edited edits hcoherent.length_slots
  have hanchored : (e.edited edits).Anchored :=
    (hcontinues.grounded (coherent_iff.1 hcoherent).1).anchored
  refine ⟨hcontinues, hanchored, ?_⟩
  intro hdeleted stamp path hfresh
  rw [← hcontinues.reference_eq] at hfresh
  exact hanchored.exists_yields hdeleted hfresh path

/-- The node below the root is given another label, and nothing below it is touched. -/
theorem stands_for_reference_of_relabelled_child :
    ∃ d e : Draft, d.key = .int 1 ∧ e.key = .int 2 ∧ e.Within d ∧
      ∃ m, (e.edited [.field "label" (.set (.scalar (.key (.text "twig"))))]).Yields 2 [] m ∧
        m.isShared (Samples.tree 2 "leaf" []) = false ∧
        m.fields[1]? = some (.modelMap .zero []) := by
  have hreachable : Reachable Samples.nodes
      ((Edit.field "children" .touch).run (Samples.family "leaf").edit).1 :=
    .run (.edit (Samples.conforms_family "leaf")) (.field fun _ _ _ _ => .touch)
  have hwithin : Within (Samples.tree 2 "leaf" []).edit
      ((Edit.field "children" .touch).run (Samples.family "leaf").edit).1 :=
    .under (w := .modelMap [(.int 7, (Samples.tree 2 "leaf" []).edit)]) (.refl _)
      (List.mem_singleton.2 rfl) (List.mem_of_getElem? (i := 1) rfl)
  obtain ⟨hcontinues, -, hyields⟩ := stands_for_reference hreachable hwithin
    [.field "label" (.set (.scalar (.key (.text "twig"))))]
  obtain ⟨m, hm⟩ := hyields (by decide) 2 [] (by decide)
  refine ⟨_, _, ?_, ?_, hwithin, m, hm, ?_, ?_⟩
  · decide
  · decide
  · rw [Bool.eq_false_iff]
    intro hshared
    have hreuse := hm.shared_iff.1 ⟨_, hcontinues.reference_eq, hshared⟩
    revert hreuse
    decide
  · exact (hm.field_eq _ hcontinues.reference_eq 1 _ rfl).1

end Draft

end VersionedRecords
