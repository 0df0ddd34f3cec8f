import VersionedRecords.Proofs.Editing
import VersionedRecords.Proofs.Merging

/-!
Merging changes first and applying them one after the other.

Both lead to the same record as long as each change continues what is merged.  An accumulator keeps
what it has for a field when the record is deleted, while a deletion empties a draft.  So a record
that is deleted and then changed again comes out differently.
-/

namespace VersionedRecords

open Draft

namespace Accumulator

/-- Each change of a sequence continues what has been merged by then.  Once the record is to be
deleted, only a deletion does. -/
def ContinuedBy : Accumulator → List Change → Prop
  | _, [] => True
  | a, c :: cs =>
    (c.intent = .delete ∨ a.state.current ≠ .delete ∧ FieldsContinue c.fields a.fields) ∧
      ContinuedBy (absorb c a) cs

variable {models : String → Layout} {b d : Draft} {a : Accumulator} {c : Change}

/-- The accumulator has merged what made the one draft of the other. -/
structure KeepsUp (models : String → Layout) (b : Draft) (a : Accumulator) (d : Draft) : Prop where
  identity_eq : a.identity = b.identity
  settled : a.state.Settled
  sound : List.Forall₂ (PendingSound models) a.layout.kinds a.fields
  touched : a.state.current = .update → a.fields.any Pending.isTouched = true
  identity_draft : d.identity = b.identity
  coherent : d.Coherent models
  isDeleted_iff : d.isDeleted = true ↔ a.state.current = .delete
  outline_eq : a.state.current ≠ .delete →
    d.slots.map outlineSlot = (applyPending a.fields b.slots).map outlineSlot

/-- What a well-formed change begins an accumulator with is what it carries. -/
theorem settleFields_ofChange (hc : c.WellFormed models) :
    settleFields (ofChange c).fields = c.fields := by
  have hbuild := build_ofChange hc.canonical
  have hsound := (keepsSound hc _ (forall₂_sound_zeros c.layout.kinds)).1
  rw [ofChange_eq hc] at hbuild ⊢
  rw [build_eq_ite hsound] at hbuild
  exact congrArg Change.fields (Option.some.inj (Option.ite_none_left_eq_some.1 hbuild).2)

theorem isDeleted_applyTo (c : Change) (d : Draft) :
    (c.applyTo d).isDeleted = true ↔ c.intent = .delete := by
  rw [Change.applyTo_eq]
  split
  · next h => simp [h, isDeleted, setLastIntent]
  · next h => simp [h, isDeleted]

theorem keepsUp_ofChange (hb : b.Coherent models) (hidentity : c.identity = b.identity)
    (hc : c.WellFormed models) : KeepsUp models b (ofChange c) (c.applyTo b) := by
  have hlayout : c.layout = b.layout := congrArg Identity.layout hidentity
  obtain ⟨hsound, htouched⟩ := keepsSound hc _ (forall₂_sound_zeros c.layout.kinds)
  have hfields := settleFields_ofChange hc
  rw [ofChange_eq hc] at hfields ⊢
  refine ⟨hidentity, IntentState.settled_start c.intent, hsound, fun hupdate => ?_,
    Change.identity_applyTo c b, ?_, isDeleted_applyTo c b, fun hcurrent => ?_⟩
  · rw [htouched, hc.any_isSome hupdate, Bool.true_or]
  · exact Change.keepsCoherence_of_conforms hc.conforms b hb hlayout.symm
  · have hnot : c.intent ≠ .delete := hcurrent
    rw [applyPending, hfields, Change.applyTo_eq, if_neg hnot]

theorem KeepsUp.absorb (h : KeepsUp models b a d) (hb : b.Coherent models) (hplain : b.Plain)
    (hidentity : c.identity = b.identity) (hc : c.WellFormed models)
    (hcontinues : c.intent = .delete ∨
      a.state.current ≠ .delete ∧ FieldsContinue c.fields a.fields) :
    KeepsUp models b (absorb c a) (c.applyTo d) := by
  have hkinds : a.layout = c.layout :=
    congrArg Identity.layout (h.identity_eq.trans hidentity.symm)
  have hblayout : b.layout = c.layout := congrArg Identity.layout hidentity.symm
  obtain ⟨hsound, htouched⟩ := keepsSound hc a.fields (hkinds ▸ h.sound)
  rw [absorb_eq]
  refine ⟨h.identity_eq, IntentState.settled_absorb a.state c.intent, hkinds ▸ hsound,
    fun hupdate => ?_, (Change.identity_applyTo c d).trans h.identity_draft, ?_,
    (isDeleted_applyTo c d).trans (a.state.current_absorb_eq_delete_iff c.intent).symm,
    fun hcurrent => ?_⟩
  · have hnot : c.intent ≠ .delete := fun hdelete => by
      rw [(a.state.current_absorb_eq_delete_iff c.intent).2 hdelete] at hupdate
      cases hupdate
    have hstays := (hcontinues.resolve_left hnot).1
    rw [h.settled.current_absorb hstays hnot] at hupdate
    rw [htouched, h.touched hupdate, Bool.or_true]
  · exact Change.keepsCoherence_of_conforms hc.conforms d h.coherent
      (congrArg Identity.layout (h.identity_draft.trans hidentity.symm))
  · have hnot : c.intent ≠ .delete := fun hdelete =>
      hcurrent ((a.state.current_absorb_eq_delete_iff c.intent).2 hdelete)
    obtain ⟨hstays, hfields⟩ := hcontinues.resolve_left hnot
    rw [Change.applyTo_eq, if_neg hnot]
    refine (Change.map_outlineSlot_applyFields_congr (h.outline_eq hstays) c.fields).trans ?_
    exact (mergesAsApplied hc a.fields b.slots (hkinds ▸ h.sound)
      (hblayout ▸ (coherent_iff.1 hb).2) (plain_iff.1 hplain) hfields).symm

/-- What is merged makes a change, and that makes of the draft what the changes made of it. -/
theorem KeepsUp.exists_build (h : KeepsUp models b a d) (hb : b.Coherent models) :
    ∃ m, build a = some m ∧ m.identity = b.identity ∧ (m.applyTo b).Coherent models ∧
      (m.applyTo b).content = d.content := by
  have hbuild : build a = some ⟨a.layout, a.state.current, a.key, settleFields a.fields⟩ := by
    rw [build_eq_ite h.sound, if_neg]
    rintro ⟨hupdate, hnone⟩
    rw [h.touched hupdate] at hnone
    cases hnone
  have hconforms := conforms_of_build h.sound hbuild
  refine ⟨_, hbuild, h.identity_eq, ?_, ?_⟩
  · exact Change.keepsCoherence_of_conforms hconforms b hb
      (congrArg Identity.layout h.identity_eq.symm)
  · by_cases hdelete : a.state.current = .delete
    · rw [content_eq_none_iff.2 (h.isDeleted_iff.2 hdelete), content_eq_none_iff]
      exact (isDeleted_applyTo _ b).2 hdelete
    · refine content_congr (outline_eq_iff.2 ⟨?_, ?_, ?_⟩)
      · rw [Change.identity_applyTo, h.identity_draft]
      · rw [Bool.eq_iff_iff, h.isDeleted_iff]
        exact isDeleted_applyTo _ b
      · rw [Change.applyTo_eq, if_neg hdelete]
        exact (h.outline_eq hdelete).symm

theorem KeepsUp.foldlM (h : KeepsUp models b a d) (hb : b.Coherent models) (hplain : b.Plain)
    {cs : List Change} (hcs : ∀ x ∈ cs, x.identity = b.identity ∧ x.WellFormed models)
    (hcontinued : a.ContinuedBy cs) :
    ∃ a' d', cs.foldlM Accumulator.add a = .ok a' ∧ cs.foldlM Draft.apply d = .ok d' ∧
      KeepsUp models b a' d' := by
  induction cs generalizing a d with
  | nil => exact ⟨a, d, rfl, rfl, h⟩
  | cons c cs ih =>
      rw [List.forall_mem_cons] at hcs
      obtain ⟨hidentity, hc⟩ := hcs.1
      obtain ⟨a', d', hadded, happlied, hkeeps⟩ :=
        ih (h.absorb hb hplain hidentity hc hcontinued.1) hcs.2 hcontinued.2
      have hakey : a.key = c.key := congrArg Identity.key (h.identity_eq.trans hidentity.symm)
      have hdkey : d.key = c.key := congrArg Identity.key (h.identity_draft.trans hidentity.symm)
      refine ⟨a', d', ?_, ?_, hkeeps⟩
      · rw [List.foldlM_cons, Accumulator.add, requireSameKey, if_pos hakey]
        exact hadded
      · rw [List.foldlM_cons, Draft.apply, requireSameKey, if_pos hdkey]
        exact happlied

end Accumulator

/-! ### Changes of a node -/

namespace Samples

/-- The change of a node that says nothing about the nodes below it. -/
def nodeChange (intent : Intent) (key : Int) (label : Option String) : Change :=
  ⟨node, intent, .int key, [label.map fun l => .scalar (.key (.text l)), none]⟩

/-- The update of a node that changes one node below it. -/
def below (c : Change) : Change :=
  ⟨node, .update, .int 1, [none, some (.modelMap [⟨.update, .int 7, c⟩])]⟩

theorem wellFormed_nodeChange {intent : Intent} {key : Int} {label : Option String}
    (h : intent = .update → label.isSome = true) :
    (nodeChange intent key label).WellFormed nodes := by
  refine ⟨Change.conforms_iff.2 ?_, Change.canonical_iff.2 ⟨?_, ?_⟩, Change.valued_iff.2 ?_⟩
  · refine .cons ?_ (.cons (by simp) .nil)
    cases label with
    | none => simp
    | some l => rintro q ⟨⟩; trivial
  · intro hupdate
    simpa [nodeChange] using h hupdate
  · refine .cons ?_ (.cons (by simp) .nil)
    cases label <;> simp [Change.PayloadCanonical]
  · cases label <;> simp [nodeChange, Change.PayloadValued]

theorem wellFormed_below {c : Change} (hlayout : c.layout = node) (hc : c.WellFormed nodes) :
    (below c).WellFormed nodes := by
  refine ⟨Change.conforms_iff.2 ?_, Change.canonical_iff.2 ⟨fun _ => rfl, ?_⟩,
    Change.valued_iff.2 ?_⟩
  · refine .cons (by simp) (.cons ?_ .nil)
    rintro q ⟨⟩
    exact ⟨⟨hlayout, hc.conforms⟩, trivial⟩
  · refine .cons (by simp) (.cons ?_ .nil)
    rintro q ⟨⟩
    exact ⟨by simp, List.pairwise_singleton _ _, hc.canonical, trivial⟩
  · simpa [below, Change.PayloadValued, Change.EntriesValued] using hc.valued

/-- The label of a node. -/
def label? (s : Snapshot) : Option Datum :=
  match s.fields with
  | .scalar v :: _ => some v
  | _ => none

theorem label?_bare (s : Snapshot) : label? s.bare = label? s := by
  obtain ⟨layout, key, origin, fields⟩ := s
  rw [Snapshot.bare_eq]
  cases fields with
  | nil => rfl
  | cons v fields =>
      cases v with
      | nested s => cases s <;> simp [label?, Snapshot.bareValue]
      | _ => simp [label?, Snapshot.bareValue]

theorem label?_of_map_bare_eq {s t : Option Snapshot}
    (h : s.map Snapshot.bare = t.map Snapshot.bare) : s.bind label? = t.bind label? := by
  have hbare : ∀ s : Option Snapshot, (s.map Snapshot.bare).bind label? = s.bind label? := by
    intro s
    cases s with
    | none => rfl
    | some s => exact label?_bare s
  rw [← hbare s, h, hbare t]

/-- A node without any nodes below it, as a draft. -/
def leaf : Draft := (tree 1 "root" []).edit

/-- The node is given another label. -/
def relabelling : Change := nodeChange .update 1 (some "twig")

/-- The node is deleted and created again. -/
def renewal : List Change := [nodeChange .delete 1 none, nodeChange .add 1 none]

theorem wellFormed_renewal : ∀ c ∈ relabelling :: renewal,
    c.identity = leaf.identity ∧ c.WellFormed nodes := by
  simp only [renewal, List.forall_mem_cons, List.not_mem_nil, false_implies, implies_true, and_true]
  exact ⟨⟨rfl, wellFormed_nodeChange fun _ => rfl⟩, ⟨rfl, wellFormed_nodeChange (by decide)⟩, rfl,
    wellFormed_nodeChange (by decide)⟩

end Samples

namespace Draft

/-- The draft after several changes, applied one after the other. -/
def applyInTurn (b : Draft) (cs : List Change) : Except IdentityMismatch Draft :=
  cs.foldlM apply b

/-- The draft after the single change that several changes, beginning with `c`, are merged into. -/
def applyMerged (b : Draft) (c : Change) (cs : List Change) : Except IdentityMismatch Draft := do
  let a ← cs.foldlM Accumulator.add (.ofChange c)
  a.build.elim (.ok b) b.apply

/-- The changes can be applied one after the other and can be merged into one and applied, and the
records that are built after that have the same content. -/
def SameEitherWay (b : Draft) (c : Change) (cs : List Change) : Prop :=
  ∃ d d', b.applyInTurn (c :: cs) = .ok d ∧ b.applyMerged c cs = .ok d' ∧
    ∀ stamp, (d'.build stamp).map Snapshot.bare = (d.build stamp).map Snapshot.bare

open Samples

/-- If each change continues what is merged, then applying what is merged builds what applying the
changes one after the other builds. -/
theorem sameEitherWay_of_continued {models : String → Layout} {b : Draft} {c : Change}
    {cs : List Change} (hb : b.Reachable models) (hplain : b.Plain)
    (hcs : ∀ x ∈ c :: cs, x.identity = b.identity ∧ x.WellFormed models)
    (hcontinued : (Accumulator.ofChange c).ContinuedBy cs) : b.SameEitherWay c cs := by
  have hcoherent := hb.coherent
  rw [List.forall_mem_cons] at hcs
  obtain ⟨hidentity, hc⟩ := hcs.1
  obtain ⟨a, d, hadded, happlied, hkeeps⟩ :=
    (Accumulator.keepsUp_ofChange hcoherent hidentity hc).foldlM hcoherent hplain hcs.2 hcontinued
  obtain ⟨m, hm, hmidentity, hmcoherent, hcontent⟩ := hkeeps.exists_build hcoherent
  have hkey : b.key = c.key := congrArg Identity.key hidentity.symm
  have hmkey : b.key = m.key := congrArg Identity.key hmidentity.symm
  refine ⟨d, m.applyTo b, ?_, ?_, fun stamp => ?_⟩
  · rw [applyInTurn, List.foldlM_cons, Draft.apply, requireSameKey, if_pos hkey]
    exact happlied
  · have happlied : b.apply m = .ok (m.applyTo b) := by
      rw [Draft.apply, requireSameKey, if_pos hmkey]
      rfl
    rw [applyMerged, hadded]
    exact (congrArg (fun m => m.elim (.ok b) b.apply) hm).trans happlied
  · rw [build, build, buildsContent_of_coherent hmcoherent, hcontent,
      buildsContent_of_coherent hkeeps.coherent]

/-- The node below a node is given one label and then another. -/
theorem sameEitherWay_of_relabelled_twice :
    (family "leaf").edit.SameEitherWay (below (nodeChange .update 2 (some "twig")))
      [below (nodeChange .update 2 (some "branch"))] := by
  have hbelow : ∀ label, (below (nodeChange .update 2 (some label))).WellFormed nodes := fun _ =>
    wellFormed_below rfl (wellFormed_nodeChange fun _ => rfl)
  refine sameEitherWay_of_continued (.edit (conforms_family "leaf"))
    (plain_edit (isPlain_family "leaf")) ?_ ⟨.inr ⟨by decide, ?_⟩, trivial⟩
  · simp only [List.forall_mem_cons, List.not_mem_nil, false_implies, implies_true, and_true]
    exact ⟨⟨rfl, hbelow "twig"⟩, rfl, hbelow "branch"⟩
  · refine ⟨⟨fun _ s hs => ?_, trivial⟩, trivial⟩
    cases hs
    exact ⟨fun _ => by decide, fun _ a ha => by cases ha; exact ⟨rfl, by decide, trivial, trivial⟩⟩

/-- Merging need not do what the changes do one after the other.  A node that is given a label, then
deleted and created again has no label, but what is merged gives it the label. -/
theorem not_sameEitherWay_of_renewed :
    ¬ ∀ (b : Draft) (c : Change) (cs : List Change), b.Reachable nodes → b.Plain →
      (∀ x ∈ c :: cs, x.identity = b.identity ∧ x.WellFormed nodes) → b.SameEitherWay c cs := by
  intro hall
  have hconforms : (tree 1 "root" []).Conforms nodes := conforms_tree List.Pairwise.nil (by simp)
  have hplain : (tree 1 "root" []).isPlain = true := isPlain_tree (by simp)
  obtain ⟨d, d', hturn, hmerged, hsame⟩ :=
    hall leaf relabelling renewal (.edit hconforms) (plain_edit hplain) wellFormed_renewal
  have hturnLabel : (leaf.applyInTurn (relabelling :: renewal)).toOption.bind
      (fun d => (d.build 0).bind label?) = some (.key (.text "")) := by decide +kernel
  have hmergedLabel : (leaf.applyMerged relabelling renewal).toOption.bind
      (fun d => (d.build 0).bind label?) = some (.key (.text "twig")) := by decide +kernel
  rw [hturn, Except.toOption, Option.bind_some] at hturnLabel
  rw [hmerged, Except.toOption, Option.bind_some, label?_of_map_bare_eq (hsame 0),
    hturnLabel] at hmergedLabel
  exact absurd hmergedLabel (by decide)

end Draft

end VersionedRecords
