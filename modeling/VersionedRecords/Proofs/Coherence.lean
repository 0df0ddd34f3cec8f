import VersionedRecords.Proofs.DraftContent

/-!
Coherent drafts.

A draft is coherent if its fields have the form that the layout asks for and whatever it has not
touched is the value that its reference has there; so for all drafts below.  Building a coherent
draft gives its content.
-/

namespace VersionedRecords

namespace Slot

/-- The slot is as it was, or touched. -/
def Advances (s s' : Slot Snapshot Draft) : Prop := s'.isTouched = true ∨ s' = s

theorem Advances.refl (s : Slot Snapshot Draft) : s.Advances s := .inr rfl

theorem Advances.trans {s s' s'' : Slot Snapshot Draft} (h : s.Advances s')
    (h' : s'.Advances s'') : s.Advances s'' := by
  rcases h' with h' | rfl
  · exact .inl h'
  · exact h

theorem Advances.isTouched {s s' : Slot Snapshot Draft} (h : s.Advances s')
    (hs : s.isTouched = true) : s'.isTouched = true := by
  rcases h with h | rfl
  · exact h
  · exact hs

end Slot

namespace Draft

/-- The draft is begun over a version of its own record or from nothing, and its untouched fields
are those of that version. -/
def Grounded (models : String → Layout) (identity : Identity) (slots : List (Slot Snapshot Draft)) :
    Option Snapshot → Prop
  | none => ∀ s ∈ slots, s.isTouched = true
  | some r =>
    r.identity = identity ∧ r.Conforms models ∧
      List.Forall₂ (fun s v => s.isTouched = true ∨ s = .deferred v) slots r.fields

mutual

/-- Every field has the form that the layout asks for, untouched fields are those of the reference,
and so in all drafts below. -/
def Coherent (models : String → Layout) : Draft → Prop
  | ⟨layout, key, reference, _, slots⟩ =>
    Grounded models ⟨layout, key⟩ slots reference ∧ SlotsCohere models layout.kinds slots

def SlotsCohere (models : String → Layout) :
    List FieldKind → List (Slot Snapshot Draft) → Prop
  | [], [] => True
  | kind :: kinds, .deferred v :: slots =>
    Snapshot.ValueConforms models kind v ∧ SlotsCohere models kinds slots
  | kind :: kinds, .touched w :: slots =>
    WorkingCoheres models kind w ∧ SlotsCohere models kinds slots
  | _, _ => False

def WorkingCoheres (models : String → Layout) : FieldKind → Working Draft → Prop
  | .scalar t, .scalar v => v.Fits t
  | .attached t, .attached v => ∀ x ∈ v, x.Fits t
  | .nested _, .nested none => True
  | .nested m, .nested (some d) => d.layout = models m ∧ Coherent models d
  | .keySet _, .keySet ms => KeySet.Ascending ms
  | .valueMap _ t, .valueMap es => Keyed.Ascending es ∧ ∀ e ∈ es, e.2.Fits t
  | .modelMap _ m, .modelMap es => Keyed.Ascending es ∧ EntriesCohere models m es
  | _, _ => False

def EntriesCohere (models : String → Layout) (m : String) : List (Key × Draft) → Prop
  | [] => True
  | (_, d) :: es => (d.layout = models m ∧ Coherent models d) ∧ EntriesCohere models m es

end

variable {models : String → Layout}

def SlotCoheres (models : String → Layout) (kind : FieldKind) : Slot Snapshot Draft → Prop
  | .deferred v => Snapshot.ValueConforms models kind v
  | .touched w => WorkingCoheres models kind w

attribute [grind =] Coherent WorkingCoheres

theorem slotsCohere_iff {kinds : List FieldKind} {slots : List (Slot Snapshot Draft)} :
    SlotsCohere models kinds slots ↔ List.Forall₂ (SlotCoheres models) kinds slots := by
  induction kinds generalizing slots with
  | nil => cases slots <;> simp [SlotsCohere]
  | cons kind kinds ih =>
      cases slots with
      | nil => simp [SlotsCohere]
      | cons s slots => cases s <;> simp [SlotsCohere, SlotCoheres, ih]

theorem coherent_iff {d : Draft} :
    d.Coherent models ↔ Grounded models d.identity d.slots d.reference ∧
      List.Forall₂ (SlotCoheres models) d.layout.kinds d.slots := by
  obtain ⟨layout, key, reference, lastIntent, slots⟩ := d
  rw [Coherent, slotsCohere_iff]
  rfl

theorem entriesCohere_iff {m : String} {es : List (Key × Draft)} :
    EntriesCohere models m es ↔ ∀ e ∈ es, e.2.layout = models m ∧ e.2.Coherent models := by
  induction es with
  | nil => simp [EntriesCohere]
  | cons e es ih => simp [EntriesCohere, ih]

/-! ### What a coherent working copy looks like, kind by kind -/

theorem workingCoheres_scalar {t : DatumType} {w : Working Draft} :
    WorkingCoheres models (.scalar t) w ↔ ∃ x : Datum, w = .scalar x ∧ x.Fits t := by
  cases w <;> simp [WorkingCoheres]

theorem workingCoheres_attached {t : DatumType} {w : Working Draft} :
    WorkingCoheres models (.attached t) w ↔
      ∃ x : Option Datum, w = .attached x ∧ ∀ y ∈ x, y.Fits t := by
  cases w <;> simp [WorkingCoheres]

theorem workingCoheres_nested {m : String} {w : Working Draft} :
    WorkingCoheres models (.nested m) w ↔
      ∃ d : Option Draft, w = .nested d ∧ ∀ e ∈ d, e.layout = models m ∧ e.Coherent models := by
  cases w with
  | nested d => cases d <;> simp [WorkingCoheres]
  | _ => simp [WorkingCoheres]

theorem workingCoheres_keySet {k : KeyType} {w : Working Draft} :
    WorkingCoheres models (.keySet k) w ↔
      ∃ ms : List Key, w = .keySet ms ∧ KeySet.Ascending ms := by
  cases w <;> simp [WorkingCoheres]

theorem workingCoheres_valueMap {k : KeyType} {t : DatumType} {w : Working Draft} :
    WorkingCoheres models (.valueMap k t) w ↔
      ∃ es : Keyed Datum, w = .valueMap es ∧ Keyed.Ascending es ∧ ∀ e ∈ es, e.2.Fits t := by
  cases w <;> simp [WorkingCoheres]

theorem workingCoheres_modelMap {k : KeyType} {m : String} {w : Working Draft} :
    WorkingCoheres models (.modelMap k m) w ↔
      ∃ es : Keyed Draft, w = .modelMap es ∧ Keyed.Ascending es ∧
        ∀ e ∈ es, e.2.layout = models m ∧ e.2.Coherent models := by
  cases w <;> simp [WorkingCoheres, entriesCohere_iff]

/-! ### The kind that the form of a working copy tells -/

theorem kind_of_nested {kind : FieldKind} {d : Option Draft}
    (h : WorkingCoheres models kind (.nested d)) : ∃ m, kind = .nested m := by
  cases kind with
  | nested m => exact ⟨m, rfl⟩
  | _ => simp [WorkingCoheres] at h

theorem kind_of_keySet {kind : FieldKind} {ms : List Key}
    (h : WorkingCoheres models kind (.keySet ms)) : ∃ k, kind = .keySet k := by
  cases kind with
  | keySet k => exact ⟨k, rfl⟩
  | _ => simp [WorkingCoheres] at h

theorem kind_of_valueMap {kind : FieldKind} {es : Keyed Datum}
    (h : WorkingCoheres models kind (.valueMap es)) : ∃ k t, kind = .valueMap k t := by
  cases kind with
  | valueMap k t => exact ⟨k, t, rfl⟩
  | _ => simp [WorkingCoheres] at h

theorem kind_of_modelMap {kind : FieldKind} {es : Keyed Draft}
    (h : WorkingCoheres models kind (.modelMap es)) : ∃ k m, kind = .modelMap k m := by
  cases kind with
  | modelMap k m => exact ⟨k, m, rfl⟩
  | _ => simp [WorkingCoheres] at h

theorem workingCoheres_zero (kind : FieldKind) : WorkingCoheres models kind (.zero kind) := by
  cases kind with
  | scalar t => exact t.fits_zero
  | attached t => simp [WorkingCoheres, Working.zero]
  | nested m => trivial
  | keySet k => exact List.Pairwise.nil
  | valueMap k t => exact ⟨List.Pairwise.nil, by simp⟩
  | modelMap k m => exact ⟨List.Pairwise.nil, trivial⟩

/-! ### How coherent drafts come about -/

theorem coherent_new (layout : Layout) (key : Key) : (Draft.new layout key).Coherent models := by
  refine coherent_iff.2 ⟨?_, ?_⟩
  · intro s hs
    obtain ⟨kind, -, rfl⟩ := List.mem_map.1 hs
    rfl
  · refine List.forall₂_map_right_iff.2 (List.forall₂_same.2 ?_)
    exact fun kind _ => workingCoheres_zero kind

theorem coherent_edit {s : Snapshot} (hs : s.Conforms models) : s.edit.Coherent models := by
  refine coherent_iff.2 ⟨⟨rfl, hs, ?_⟩, ?_⟩
  · refine List.forall₂_map_left_iff.2 (List.forall₂_same.2 ?_)
    exact fun v _ => .inr rfl
  · exact List.forall₂_map_right_iff.2 (Snapshot.conforms_iff.1 hs)

theorem workingCoheres_materialise {kind : FieldKind} {v : Value Snapshot}
    (hv : Snapshot.ValueConforms models kind v) : WorkingCoheres models kind v.materialise := by
  cases kind with
  | scalar t =>
      obtain ⟨x, rfl, hx⟩ := Snapshot.valueConforms_scalar.1 hv
      exact hx
  | attached t =>
      obtain ⟨x, rfl, hx⟩ := Snapshot.valueConforms_attached.1 hv
      exact hx
  | nested m =>
      obtain ⟨s, rfl, hs⟩ := Snapshot.valueConforms_nested.1 hv
      refine workingCoheres_nested.2 ⟨_, rfl, ?_⟩
      intro d hd
      obtain ⟨t, ht, rfl⟩ := Option.map_eq_some_iff.1 hd
      exact ⟨(hs t ht).1, coherent_edit (hs t ht).2⟩
  | keySet k =>
      obtain ⟨o, ms, rfl, hms⟩ := Snapshot.valueConforms_keySet.1 hv
      exact hms
  | valueMap k t =>
      obtain ⟨o, es, rfl, hes⟩ := Snapshot.valueConforms_valueMap.1 hv
      exact hes
  | modelMap k m =>
      obtain ⟨o, es, rfl, hes, hentries⟩ := Snapshot.valueConforms_modelMap.1 hv
      refine workingCoheres_modelMap.2 ⟨_, rfl, ?_, ?_⟩
      · exact List.pairwise_map.2 hes
      · intro _ hmem
        obtain ⟨e, he, rfl⟩ := List.mem_map.1 hmem
        exact ⟨(hentries e he).1, coherent_edit (hentries e he).2⟩

theorem workingCoheres_working {kind : FieldKind} {s : Slot Snapshot Draft}
    (hs : SlotCoheres models kind s) : WorkingCoheres models kind s.working := by
  cases s with
  | deferred v => exact workingCoheres_materialise hs
  | touched w => exact hs

theorem Coherent.exists_slot {d : Draft} (hd : d.Coherent models) {i : Nat} {kind : FieldKind}
    (hkind : d.layout.kinds[i]? = some kind) :
    ∃ s, d.slots[i]? = some s ∧ SlotCoheres models kind s :=
  exists_getElem?_left (coherent_iff.1 hd).2.flip hkind

theorem Coherent.length_slots {d : Draft} (hd : d.Coherent models) :
    d.slots.length = d.layout.kinds.length :=
  (coherent_iff.1 hd).2.length_eq.symm

theorem advances_zeroSlots {d : Draft} (hd : d.slots.length = d.layout.kinds.length) :
    List.Forall₂ Slot.Advances d.slots (zeroSlots d.layout) := by
  refine List.forall₂_iff_zip.2 ⟨by rw [hd, zeroSlots, List.length_map], ?_⟩
  intro s s' hmem
  obtain ⟨kind, -, rfl⟩ := List.mem_map.1 (List.of_mem_zip hmem).2
  exact .inl rfl

theorem advances_set (d : Draft) (i : Nat) (w : Working Draft) :
    List.Forall₂ Slot.Advances d.slots (d.slots.set i (.touched w)) := by
  generalize d.slots = slots
  induction slots generalizing i with
  | nil => exact .nil
  | cons s slots ih =>
      cases i with
      | zero => exact .cons (.inl rfl) (List.forall₂_same.2 fun s _ => .refl s)
      | succ i => exact .cons (.refl s) (ih i)

/-- Touching fields keeps a draft grounded. -/
theorem Grounded.advance {identity : Identity} {slots slots' : List (Slot Snapshot Draft)}
    {reference : Option Snapshot} (h : Grounded models identity slots reference)
    (hslots : List.Forall₂ Slot.Advances slots slots') :
    Grounded models identity slots' reference := by
  cases reference with
  | none =>
      intro s' hs'
      obtain ⟨s, hs, htouched | rfl⟩ := exists_of_mem_right hslots hs'
      · exact htouched
      · exact h s' hs
  | some r =>
      obtain ⟨hidentity, hconforms, hdeferred⟩ := h
      refine ⟨hidentity, hconforms, forall₂_trans ?_ hslots.flip hdeferred⟩
      rintro s' s v (hs' | rfl) hs
      · exact .inl hs'
      · exact hs

theorem Coherent.advance {d : Draft} (hd : d.Coherent models)
    {slots : List (Slot Snapshot Draft)}
    (hslots : List.Forall₂ Slot.Advances d.slots slots)
    (hcohere : List.Forall₂ (SlotCoheres models) d.layout.kinds slots)
    (lastIntent : Option Intent) :
    Coherent models { d with lastIntent := lastIntent, slots := slots } :=
  coherent_iff.2 ⟨(coherent_iff.1 hd).1.advance hslots, hcohere⟩

theorem coherent_setLastIntent {d : Draft} (hd : d.Coherent models) (i : Option Intent) :
    (d.setLastIntent i).Coherent models :=
  hd.advance (List.forall₂_same.2 fun s _ => .refl s) (coherent_iff.1 hd).2 i

theorem coherent_reset {d : Draft} (hd : d.Coherent models) : d.reset.Coherent models := by
  have hnew := coherent_iff.1 (@coherent_new models d.layout d.key)
  exact hd.advance (advances_zeroSlots hd.length_slots) hnew.2 none

/-! ### Contents of coherent drafts conform -/

theorem conforms_contentWorking {kind : FieldKind} {w : Working Draft}
    (hw : WorkingCoheres models kind w)
    (ih : ∀ d ∈ w.drafts, d.Coherent models → ∀ s ∈ d.content, s.Conforms models) :
    Snapshot.ValueConforms models kind (contentWorking w) := by
  cases kind with
  | scalar t =>
      obtain ⟨x, rfl, hx⟩ := workingCoheres_scalar.1 hw
      exact hx
  | attached t =>
      obtain ⟨x, rfl, hx⟩ := workingCoheres_attached.1 hw
      exact hx
  | nested m =>
      obtain ⟨d, rfl, hd⟩ := workingCoheres_nested.1 hw
      rw [contentWorking_nested, Snapshot.valueConforms_nested]
      refine ⟨_, rfl, ?_⟩
      intro s hs
      obtain ⟨e, he, hes⟩ := Option.bind_eq_some_iff.1 hs
      obtain ⟨hlayout, hcoherent⟩ := hd e he
      have hidentity := identity_of_content hes
      exact ⟨(congrArg Identity.layout hidentity).trans hlayout,
        ih e (by simpa [Working.drafts] using he) hcoherent s hes⟩
  | keySet k =>
      obtain ⟨ms, rfl, hms⟩ := workingCoheres_keySet.1 hw
      exact hms
  | valueMap k t =>
      obtain ⟨es, rfl, hes⟩ := workingCoheres_valueMap.1 hw
      exact hes
  | modelMap k m =>
      obtain ⟨es, rfl, hes, hentries⟩ := workingCoheres_modelMap.1 hw
      refine Snapshot.valueConforms_modelMap.2 ⟨.zero, contentEntries es, by rw [contentWorking],
        ascending_contentEntries hes, ?_⟩
      intro e he
      rw [contentEntries_eq_filterMap] at he
      obtain ⟨f, hf, hfe⟩ := List.mem_filterMap.1 he
      obtain ⟨s, hs, rfl⟩ := Option.map_eq_some_iff.1 hfe
      obtain ⟨hlayout, hcoherent⟩ := hentries f hf
      have hidentity := identity_of_content hs
      exact ⟨(congrArg Identity.layout hidentity).trans hlayout,
        ih f.2 (List.mem_map_of_mem hf) hcoherent s hs⟩

theorem conforms_content {d : Draft} (hd : d.Coherent models) {s : Snapshot}
    (hs : d.content = some s) : s.Conforms models := by
  induction d using Draft.induction generalizing s with
  | step d ih =>
      obtain ⟨-, hslots⟩ := coherent_iff.1 hd
      rw [content_eq] at hs
      split at hs
      · cases hs
      · cases hs
        refine Snapshot.conforms_iff.2 (List.forall₂_map_right_iff.2 ?_)
        refine (List.forall₂_iff_zip.2 ⟨hslots.length_eq, ?_⟩)
        intro kind slot hmem
        have hslot : SlotCoheres models kind slot := (List.forall₂_iff_zip.1 hslots).2 hmem
        cases slot with
        | deferred v =>
            refine (Snapshot.valueConforms_bareValue ?_).2 hslot
            exact fun s _ => Snapshot.conforms_bare
        | touched w =>
            refine conforms_contentWorking hslot ?_
            exact fun e he hcoherent s hs => ih w (List.of_mem_zip hmem).2 e he hcoherent hs

/-! ### Building gives the content -/

/-- Wherever and whenever the draft is built, the result has the content of the draft. -/
def BuildsContent (d : Draft) : Prop :=
  ∀ stamp path, (d.buildAt stamp path).map Snapshot.bare = d.content

theorem bareEntries_freezeEntries {es : List (Key × Draft)} (ih : ∀ e ∈ es, e.2.BuildsContent)
    (stamp : Nat) (path : List Nat) (i : Nat) :
    Snapshot.bareEntries (freezeEntries stamp path i es) = contentEntries es := by
  induction es generalizing i with
  | nil => simp [freezeEntries, Snapshot.bareEntries, contentEntries]
  | cons e es ihes =>
      obtain ⟨k, d⟩ := e
      have hd := ih (k, d) (by simp) stamp (i :: path)
      have hrest := ihes (fun e he => ih e (List.mem_cons_of_mem _ he)) (i + 1)
      cases hbuild : d.buildAt stamp (i :: path) with
      | none =>
          rw [hbuild] at hd
          simp [freezeEntries, contentEntries, hbuild, ← hd, hrest]
      | some s =>
          rw [hbuild] at hd
          simp [freezeEntries, contentEntries, hbuild, ← hd, hrest, Snapshot.bareEntries]

theorem bareValue_freeze {w : Working Draft} (ih : ∀ d ∈ w.drafts, d.BuildsContent) (stamp : Nat)
    (path : List Nat) : Snapshot.bareValue (freeze stamp path w) = contentWorking w := by
  cases w with
  | nested d =>
      cases d with
      | none => simp [freeze, contentWorking, Snapshot.bareValue]
      | some d =>
          rw [freeze, contentWorking, Snapshot.bareValue_nested,
            ih d (by simp [Working.drafts]) stamp path]
  | modelMap es =>
      have hes :=
        bareEntries_freezeEntries (fun e he => ih e.2 (List.mem_map_of_mem he)) stamp path 0
      rw [freeze, contentWorking, Snapshot.bareValue, hes]
  | _ => simp [freeze, contentWorking, Snapshot.bareValue]

theorem bareFields_freezeSlots {slots : List (Slot Snapshot Draft)}
    (ih : ∀ w, Slot.touched w ∈ slots → ∀ d ∈ w.drafts, d.BuildsContent) (stamp : Nat)
    (path : List Nat) (i : Nat) :
    (freezeSlots stamp path i slots).map Snapshot.bareValue = slots.map contentSlot := by
  induction slots generalizing i with
  | nil => simp [freezeSlots]
  | cons s slots ihslots =>
      have hrest := ihslots (fun w hw => ih w (List.mem_cons_of_mem _ hw)) (i + 1)
      cases s with
      | deferred v => simp [freezeSlots, freezeSlot, contentSlot, hrest]
      | touched w =>
          have hw := bareValue_freeze (ih w (by simp)) stamp (i :: path)
          simp [freezeSlots, freezeSlot, contentSlot, hw, hrest]

/-- An untouched draft over a snapshot has the content of the snapshot. -/
theorem map_contentSlot_of_untouched {slots : List (Slot Snapshot Draft)}
    {fields : List (Value Snapshot)}
    (hdeferred : List.Forall₂ (fun s v => s.isTouched = true ∨ s = .deferred v) slots fields)
    (huntouched : slots.any Slot.isTouched = false) :
    slots.map contentSlot = fields.map Snapshot.bareValue := by
  induction hdeferred with
  | nil => rfl
  | @cons s v slots fields hs hrest ih =>
      simp only [List.any_cons, Bool.or_eq_false_iff] at huntouched
      rcases hs with hs | rfl
      · simp [hs] at huntouched
      · simp [contentSlot, ih huntouched.2]

theorem content_of_untouched {d : Draft} {r : Snapshot}
    (hd : Grounded models d.identity d.slots (some r)) (hdeleted : d.isDeleted = false)
    (huntouched : d.slots.any Slot.isTouched = false) : d.content = some r.bare := by
  obtain ⟨hidentity, -, hdeferred⟩ := hd
  rw [content_eq, hdeleted, map_contentSlot_of_untouched hdeferred huntouched, Snapshot.bare_eq]
  simp only [Snapshot.identity, identity, Identity.mk.injEq] at hidentity
  simp [hidentity]

theorem coherent_of_mem_drafts {kind : FieldKind} {w : Working Draft}
    (hw : WorkingCoheres models kind w) {d : Draft} (hd : d ∈ w.drafts) : d.Coherent models := by
  cases w with
  | nested e =>
      obtain ⟨m, rfl⟩ := kind_of_nested hw
      obtain ⟨_, ⟨⟩, he⟩ := workingCoheres_nested.1 hw
      exact (he d (by simpa [Working.drafts] using hd)).2
  | modelMap es =>
      obtain ⟨k, m, rfl⟩ := kind_of_modelMap hw
      obtain ⟨_, ⟨⟩, -, hes⟩ := workingCoheres_modelMap.1 hw
      obtain ⟨e, he, rfl⟩ := List.mem_map.1 hd
      exact (hes e he).2
  | _ => simp [Working.drafts] at hd

theorem coherent_of_mem_slots {d : Draft} (hd : d.Coherent models) {w : Working Draft}
    (hw : Slot.touched w ∈ d.slots) {e : Draft} (he : e ∈ w.drafts) : e.Coherent models := by
  obtain ⟨kind, -, hkind⟩ := exists_of_mem_right (coherent_iff.1 hd).2 hw
  exact coherent_of_mem_drafts hkind he

theorem buildAt_eq (stamp : Nat) (path : List Nat) (d : Draft) :
    d.buildAt stamp path =
      if d.isDeleted = true then none
      else match d.slots.any Slot.isTouched, d.reference with
        | false, some r => some r
        | _, _ => some ⟨d.layout, d.key, ⟨stamp, path⟩, freezeSlots stamp path 0 d.slots⟩ := by
  obtain ⟨layout, key, reference, lastIntent, slots⟩ := d
  cases htouched : slots.any Slot.isTouched <;> cases reference <;>
    simp [buildAt, isDeleted, htouched]

/-- Building a coherent draft gives its content. -/
theorem buildsContent_of_coherent {d : Draft} (hd : d.Coherent models) : d.BuildsContent := by
  induction d using Draft.induction with
  | step d ih =>
      intro stamp path
      have hbelow : ∀ w, Slot.touched w ∈ d.slots → ∀ e ∈ w.drafts, e.BuildsContent :=
        fun w hw e he => ih w hw e he (coherent_of_mem_slots hd hw he)
      have hfrozen := bareFields_freezeSlots hbelow stamp path 0
      have hgrounded := (coherent_iff.1 hd).1
      cases hdeleted : d.isDeleted with
      | true => simp [buildAt_eq, content_eq, hdeleted]
      | false =>
          have hcontent : d.content = some ⟨d.layout, d.key, .zero, d.slots.map contentSlot⟩ := by
            rw [content_eq, hdeleted]
            rfl
          rw [buildAt_eq, hdeleted, if_neg Bool.false_ne_true]
          cases hreference : d.reference with
          | none => simp [hcontent, Snapshot.bare_eq, hfrozen]
          | some r =>
              cases huntouched : d.slots.any Slot.isTouched with
              | true => simp [hcontent, Snapshot.bare_eq, hfrozen]
              | false =>
                  rw [hreference] at hgrounded
                  exact (content_of_untouched hgrounded hdeleted huntouched).symm

/-- What a coherent draft builds is a conforming version of its record. -/
theorem of_buildAt {d : Draft} (hd : d.Coherent models) {stamp : Nat} {path : List Nat}
    {m : Snapshot} (hm : d.buildAt stamp path = some m) :
    m.identity = d.identity ∧ m.Conforms models := by
  have hcontent : d.content = some m.bare := by
    rw [← buildsContent_of_coherent hd stamp path, hm]
    rfl
  have hidentity := identity_of_content hcontent
  rw [Snapshot.identity_bare] at hidentity
  exact ⟨hidentity, Snapshot.conforms_bare.1 (conforms_content hd hcontent)⟩

/-- Building a coherent draft of a record that is not deleted succeeds. -/
theorem exists_build {d : Draft} (hd : d.Coherent models) (hdeleted : d.isDeleted = false)
    (stamp : Nat) : ∃ m, d.build stamp = some m ∧ d.content = some m.bare := by
  have hbuild := buildsContent_of_coherent hd stamp []
  cases hm : d.buildAt stamp [] with
  | some m =>
      rw [hm] at hbuild
      exact ⟨m, hm, hbuild.symm⟩
  | none =>
      rw [hm] at hbuild
      have := content_eq_none_iff.1 hbuild.symm
      simp [hdeleted] at this

end Draft

end VersionedRecords
