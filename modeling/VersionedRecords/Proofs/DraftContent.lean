import VersionedRecords.Proofs.Conformity
import VersionedRecords.Proofs.Tabulation
import VersionedRecords.Record.Diff

/-!
The content of drafts.

`Draft.content` reads off the slots what a draft stands for, without looking at its reference.  A
draft is coherent if what it has not touched is the value of its reference; then the content is what
building gives, whichever parts are shared with the reference.
-/

namespace VersionedRecords

/-- The drafts of sub-records directly below a working copy. -/
def Working.drafts {δ : Type} : Working δ → List δ
  | .nested d => d.toList
  | .modelMap es => es.map Prod.snd
  | _ => []

namespace Draft

theorem sizeOf_draft_lt {d e : Draft} {w : Working Draft} (hw : Slot.touched w ∈ d.slots)
    (he : e ∈ w.drafts) : sizeOf e < sizeOf d := by
  obtain ⟨layout, key, reference, lastIntent, slots⟩ := d
  have hslot := List.sizeOf_lt_of_mem hw
  have hdraft : sizeOf e < sizeOf w := by
    cases w with
    | nested f =>
        cases f with
        | none => simp [Working.drafts] at he
        | some f =>
            simp only [Working.drafts, Option.toList_some, List.mem_singleton] at he
            subst he
            simp +arith
    | modelMap entries =>
        obtain ⟨f, hf, rfl⟩ := List.mem_map.1 he
        have hentry := List.sizeOf_lt_of_mem hf
        obtain ⟨k, r⟩ := f
        simp only [Prod.mk.sizeOf_spec, Working.modelMap.sizeOf_spec] at hentry ⊢
        omega
    | _ => simp [Working.drafts] at he
  simp only [Slot.touched.sizeOf_spec, Draft.mk.sizeOf_spec] at hslot ⊢
  omega

/-- What holds of a draft whenever it holds of all drafts directly below holds of every draft. -/
theorem induction {P : Draft → Prop}
    (step : ∀ d, (∀ w, Slot.touched w ∈ d.slots → ∀ e ∈ w.drafts, P e) → P d) (d : Draft) :
    P d := by
  apply step d
  intro w hw e he
  exact induction step e
termination_by sizeOf d
decreasing_by exact sizeOf_draft_lt hw he

mutual

/-- What the draft stands for, every origin forgotten; nothing if the record is deleted. -/
def content : Draft → Option Snapshot
  | ⟨layout, key, _, lastIntent, slots⟩ =>
    if lastIntent = some .delete then none else some ⟨layout, key, .zero, contentSlots slots⟩

def contentSlots : List (Slot Snapshot Draft) → List (Value Snapshot)
  | [] => []
  | .deferred v :: slots => Snapshot.bareValue v :: contentSlots slots
  | .touched w :: slots => contentWorking w :: contentSlots slots

def contentWorking : Working Draft → Value Snapshot
  | .scalar v => .scalar v
  | .attached v => .attached v
  | .nested none => .nested none
  | .nested (some d) => .nested (content d)
  | .keySet ms => .keySet .zero ms
  | .valueMap es => .valueMap .zero es
  | .modelMap es => .modelMap .zero (contentEntries es)

/-- The entries whose records are not deleted. -/
def contentEntries : List (Key × Draft) → List (Key × Snapshot)
  | [] => []
  | (k, d) :: es =>
    match content d with
    | some s => (k, s) :: contentEntries es
    | none => contentEntries es

end

def contentSlot : Slot Snapshot Draft → Value Snapshot
  | .deferred v => Snapshot.bareValue v
  | .touched w => contentWorking w

theorem contentSlots_eq_map (slots : List (Slot Snapshot Draft)) :
    contentSlots slots = slots.map contentSlot := by
  induction slots with
  | nil => simp [contentSlots]
  | cons s slots ih => cases s <;> simp [contentSlots, contentSlot, ih]

theorem contentWorking_nested (d : Option Draft) :
    contentWorking (.nested d) = .nested (d.bind content) := by
  cases d <;> simp [contentWorking]

/-- The entry of a map as its draft stands. -/
def entryContent? (e : Key × Draft) : Option (Key × Snapshot) := e.2.content.map fun s => (e.1, s)

theorem contentEntries_eq_filterMap (es : List (Key × Draft)) :
    contentEntries es = es.filterMap entryContent? := by
  induction es with
  | nil => simp [contentEntries]
  | cons e es ih =>
      obtain ⟨k, d⟩ := e
      cases hd : content d <;> simp [contentEntries, entryContent?, hd, ih]

theorem content_eq (d : Draft) :
    d.content = if d.isDeleted = true then none
      else some ⟨d.layout, d.key, .zero, d.slots.map contentSlot⟩ := by
  obtain ⟨layout, key, reference, lastIntent, slots⟩ := d
  simp [content, contentSlots_eq_map, isDeleted]

theorem content_eq_none_iff {d : Draft} : d.content = none ↔ d.isDeleted = true := by
  rw [content_eq]
  split <;> simp_all

theorem isDeleted_of_content {d : Draft} {s : Snapshot} (h : d.content = some s) :
    d.isDeleted = false := by
  rw [← Bool.not_eq_true, ← content_eq_none_iff, h]
  simp

theorem identity_of_content {d : Draft} {s : Snapshot} (h : d.content = some s) :
    s.identity = d.identity := by
  rw [content_eq] at h
  split at h
  · cases h
  · cases h
    rfl

theorem find?_contentEntries {es : Keyed Draft} (hes : Keyed.Ascending es) (k : Key) :
    Keyed.find? k (contentEntries es) = (Keyed.find? k es).bind content := by
  induction es with
  | nil => simp [contentEntries]
  | cons e es ih =>
      obtain ⟨l, d⟩ := e
      obtain ⟨hl, hrest⟩ := List.pairwise_cons.1 hes
      have hih := ih hrest
      by_cases hk : l = k
      · subst hk
        rw [Keyed.find?_eq_none_of_precedes hl] at hih
        cases hd : content d with
        | none => simpa [contentEntries, hd, Keyed.find?] using hih
        | some s => simp [contentEntries, hd, Keyed.find?]
      · cases hd : content d with
        | none => simpa [contentEntries, hd, Keyed.find?, hk] using hih
        | some s => simpa [contentEntries, hd, Keyed.find?, hk] using hih

theorem ascending_contentEntries {es : Keyed Draft} (hes : Keyed.Ascending es) :
    Keyed.Ascending (contentEntries es) := by
  rw [contentEntries_eq_filterMap]
  refine List.pairwise_filterMap.2 (hes.imp ?_)
  intro e e' he s hs s' hs'
  obtain ⟨t, -, rfl⟩ := Option.map_eq_some_iff.1 hs
  obtain ⟨t', -, rfl⟩ := Option.map_eq_some_iff.1 hs'
  exact he

/-! ### Drafts over snapshots -/

theorem content_edit (s : Snapshot) : s.edit.content = some s.bare := by
  rw [content_eq, Snapshot.bare_eq]
  simp [Snapshot.edit, isDeleted, contentSlot, Function.comp_def]

theorem contentWorking_materialise (v : Value Snapshot) :
    contentWorking v.materialise = Snapshot.bareValue v := by
  cases v with
  | nested s =>
      cases s <;> simp [Value.materialise, contentWorking, Snapshot.bareValue, content_edit]
  | modelMap o es =>
      simp [Value.materialise, contentWorking, Snapshot.bareValue, contentEntries_eq_filterMap,
        Snapshot.bareEntries_eq_map, List.filterMap_map, entryContent?, content_edit,
        Function.comp_def]
  | _ => simp [Value.materialise, contentWorking, Snapshot.bareValue]

theorem contentSlot_eq (s : Slot Snapshot Draft) : contentSlot s = contentWorking s.working := by
  cases s with
  | deferred v => exact (contentWorking_materialise v).symm
  | touched w => rfl

theorem drafts_materialise (v : Value Snapshot) :
    v.materialise.drafts = v.records.map Snapshot.edit := by
  cases v with
  | nested s => cases s <;> rfl
  | modelMap o es => simp [Value.materialise, Working.drafts, Value.records]
  | _ => rfl

/-- What holds of a draft whenever it holds of all drafts that touching its fields leads to holds of
every draft. -/
theorem induction_working {P : Draft → Prop}
    (step : ∀ d, (∀ s ∈ d.slots, ∀ e ∈ s.working.drafts, P e) → P d) (d : Draft) : P d := by
  -- the drafts below a field that is not touched are drafts over the records of its value
  have hedit : ∀ t : Snapshot, P t.edit := by
    intro t
    induction t using Snapshot.induction with
    | step t ih =>
        apply step
        intro s hs e he
        obtain ⟨v, hv, rfl⟩ := List.mem_map.1 hs
        rw [Slot.working, drafts_materialise] at he
        obtain ⟨u, hu, rfl⟩ := List.mem_map.1 he
        exact ih v hv u hu
  induction d using Draft.induction with
  | step d ih =>
      apply step
      intro s hs e he
      cases s with
      | deferred v =>
          rw [Slot.working, drafts_materialise] at he
          obtain ⟨u, -, rfl⟩ := List.mem_map.1 he
          exact hedit u
      | touched w => exact ih w hs e he

end Draft

end VersionedRecords
