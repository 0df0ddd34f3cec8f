import VersionedRecords.Proofs.Editing
import VersionedRecords.Proofs.Views

/-!
Plain drafts, changes and edits.

A number that is no number does not equal itself, and a negative zero equals a zero that is written
differently.  Where there are only plain values, neither occurs, and equality of content is equality
of what is stored.  Plain edits of plain drafts leave them plain, and plain drafts have plain
contents.
-/

namespace VersionedRecords

namespace Draft

mutual

/-- There are only plain values in the draft, and so in all drafts below. -/
def Plain : Draft → Prop
  | ⟨_, _, _, _, slots⟩ => SlotsPlain slots

def SlotsPlain : List (Slot Snapshot Draft) → Prop
  | [] => True
  | .deferred v :: slots => Snapshot.plainValue v = true ∧ SlotsPlain slots
  | .touched w :: slots => WorkingPlain w ∧ SlotsPlain slots

def WorkingPlain : Working Draft → Prop
  | .scalar v => v.isPlain = true
  | .attached v => ∀ x ∈ v, x.isPlain = true
  | .nested none => True
  | .nested (some d) => Plain d
  | .keySet _ => True
  | .valueMap es => ∀ e ∈ es, e.2.isPlain = true
  | .modelMap es => EntriesPlain es

def EntriesPlain : List (Key × Draft) → Prop
  | [] => True
  | (_, d) :: es => Plain d ∧ EntriesPlain es

end

def SlotPlain : Slot Snapshot Draft → Prop
  | .deferred v => Snapshot.plainValue v = true
  | .touched w => WorkingPlain w

theorem plain_iff {d : Draft} : d.Plain ↔ ∀ s ∈ d.slots, SlotPlain s := by
  obtain ⟨layout, key, reference, lastIntent, slots⟩ := d
  rw [Plain]
  induction slots with
  | nil => simp [SlotsPlain]
  | cons s slots ih => cases s <;> simp [SlotsPlain, SlotPlain, ih]

theorem workingPlain_nested {d : Option Draft} :
    WorkingPlain (.nested d) ↔ ∀ e ∈ d, e.Plain := by
  cases d <;> simp [WorkingPlain]

theorem entriesPlain_iff {es : List (Key × Draft)} : EntriesPlain es ↔ ∀ e ∈ es, e.2.Plain := by
  induction es with
  | nil => simp [EntriesPlain]
  | cons e es ih => simp [EntriesPlain, ih]

theorem plain_edit {s : Snapshot} (hs : s.isPlain = true) : s.edit.Plain := by
  refine plain_iff.2 fun slot hslot => ?_
  obtain ⟨v, hv, rfl⟩ := List.mem_map.1 hslot
  exact Snapshot.isPlain_iff.1 hs v hv

theorem plain_new (layout : Layout) (key : Key) : (Draft.new layout key).Plain := by
  refine plain_iff.2 fun slot hslot => ?_
  obtain ⟨kind, -, rfl⟩ := List.mem_map.1 hslot
  cases kind with
  | scalar t => exact t.isPlain_zero
  | _ => simp [SlotPlain, WorkingPlain, Working.zero, EntriesPlain]

theorem workingPlain_materialise {v : Value Snapshot} (hv : Snapshot.plainValue v = true) :
    WorkingPlain v.materialise := by
  cases v with
  | scalar x => exact hv
  | attached x =>
      simpa [Value.materialise, WorkingPlain, Snapshot.plainValue, Option.all_eq_true] using hv
  | nested s =>
      rw [Value.materialise, workingPlain_nested]
      intro d hd
      obtain ⟨t, ht, rfl⟩ := Option.map_eq_some_iff.1 hd
      exact plain_edit (Snapshot.plainValue_nested.1 hv t ht)
  | keySet o ms => trivial
  | valueMap o es => simpa [Value.materialise, WorkingPlain, Snapshot.plainValue] using hv
  | modelMap o es =>
      rw [Snapshot.plainValue, Snapshot.plainEntries_iff] at hv
      refine entriesPlain_iff.2 fun _ hmem => ?_
      obtain ⟨e, he, rfl⟩ := List.mem_map.1 hmem
      exact plain_edit (hv e he)

theorem workingPlain_working {s : Slot Snapshot Draft} (hs : SlotPlain s) :
    WorkingPlain s.working := by
  cases s with
  | deferred v => exact workingPlain_materialise hs
  | touched w => exact hs

/-! ### Touching everything, and building -/

theorem workingPlain_map {f : Draft → Draft} {w : Working Draft}
    (ih : ∀ d ∈ w.drafts, d.Plain → (f d).Plain) (hw : WorkingPlain w) :
    WorkingPlain (w.map f) := by
  cases w with
  | nested d =>
      rw [workingPlain_nested] at hw
      rw [Working.map, workingPlain_nested]
      intro f hf
      obtain ⟨e, he, rfl⟩ := Option.map_eq_some_iff.1 hf
      exact ih e (by simpa [Working.drafts] using he) (hw e he)
  | modelMap es =>
      rw [WorkingPlain, entriesPlain_iff] at hw
      rw [Working.map, WorkingPlain, entriesPlain_iff]
      intro f hf
      obtain ⟨e, he, rfl⟩ := List.mem_map.1 hf
      exact ih e.2 (List.mem_map_of_mem he) (hw e he)
  | _ => exact hw

theorem plainValue_contentWorking {w : Working Draft}
    (ih : ∀ d ∈ w.drafts, d.Plain → ∀ s ∈ d.content, s.isPlain = true) (hw : WorkingPlain w) :
    Snapshot.plainValue (contentWorking w) = true := by
  cases w with
  | scalar v => exact hw
  | attached v =>
      simpa [contentWorking, Snapshot.plainValue, Option.all_eq_true, WorkingPlain] using hw
  | nested d =>
      rw [workingPlain_nested] at hw
      rw [contentWorking_nested, Snapshot.plainValue_nested]
      intro s hs
      obtain ⟨e, he, hes⟩ := Option.bind_eq_some_iff.1 hs
      exact ih e (by simpa [Working.drafts] using he) (hw e he) s hes
  | keySet ms => simp [contentWorking, Snapshot.plainValue]
  | valueMap es => simpa [contentWorking, Snapshot.plainValue, WorkingPlain] using hw
  | modelMap es =>
      rw [WorkingPlain, entriesPlain_iff] at hw
      rw [contentWorking, Snapshot.plainValue, Snapshot.plainEntries_iff,
        contentEntries_eq_filterMap]
      intro f hf
      obtain ⟨e, he, hef⟩ := List.mem_filterMap.1 hf
      obtain ⟨s, hs, rfl⟩ := Option.map_eq_some_iff.1 hef
      exact ih e.2 (List.mem_map_of_mem he) (hw e he) s hs

theorem isPlain_content {d : Draft} (hd : d.Plain) {s : Snapshot} (hs : d.content = some s) :
    s.isPlain = true := by
  induction d using Draft.induction_working generalizing s with
  | step d ih =>
      rw [content_eq] at hs
      split at hs
      · cases hs
      · cases hs
        rw [Snapshot.isPlain_iff, List.forall_mem_map]
        intro slot hslot
        rw [contentSlot_eq]
        refine plainValue_contentWorking ?_ (workingPlain_working (plain_iff.1 hd slot hslot))
        exact fun e he hplain t ht => ih slot hslot e he hplain ht

end Draft

/-! ### Plain changes -/

namespace Change

mutual

/-- There are only plain values in the change, and so in all changes within it. -/
def Plain : Change → Prop
  | ⟨_, _, _, fields⟩ => FieldsPlain fields

def FieldsPlain : List (Option (Payload Change)) → Prop
  | [] => True
  | none :: ps => FieldsPlain ps
  | some p :: ps => PayloadPlain p ∧ FieldsPlain ps

def PayloadPlain : Payload Change → Prop
  | .scalar v => v.isPlain = true
  | .attached v => ∀ x ∈ v, x.isPlain = true
  | .nested c => Plain c
  | .keySet _ => True
  | .valueMap cs => ∀ c ∈ cs, ∀ v ∈ c.value, v.isPlain = true
  | .modelMap cs => EntriesPlain cs

def EntriesPlain : List (RecordEntryChange Change) → Prop
  | [] => True
  | ⟨_, _, c⟩ :: cs => Plain c ∧ EntriesPlain cs

end

theorem plain_iff {c : Change} : c.Plain ↔ ∀ p, some p ∈ c.fields → PayloadPlain p := by
  obtain ⟨layout, intent, key, fields⟩ := c
  rw [Plain]
  induction fields with
  | nil => simp [FieldsPlain]
  | cons p ps ih => cases p <;> simp_all [FieldsPlain]

theorem entriesPlain_iff {cs : List (RecordEntryChange Change)} :
    EntriesPlain cs ↔ ∀ c ∈ cs, c.change.Plain := by
  induction cs with
  | nil => simp [EntriesPlain]
  | cons c cs ih => simp [EntriesPlain, ih]

/-- Applying the change to plain drafts leaves them plain. -/
def KeepsPlain (c : Change) : Prop := ∀ d : Draft, d.Plain → (c.applyTo d).Plain

theorem plain_applyRecord {c : Change} (hc : c.KeepsPlain) {d : Option Draft}
    (hd : ∀ e ∈ d, e.Plain) : (c.applyRecord d).Plain := by
  apply of_applyRecord
  · exact hc _ (Draft.plain_new c.layout c.key)
  · exact fun e he _ => hc e (hd e he)

theorem workingPlain_applyPayload {p : Payload Change} (hp : PayloadPlain p)
    (ih : ∀ c ∈ p.changes, c.Plain → c.KeepsPlain) {w : Working Draft}
    (hw : Draft.WorkingPlain w) : Draft.WorkingPlain (applyPayload p w) := by
  cases p with
  | scalar v =>
      rw [applyPayload]
      exact hp
  | attached v =>
      rw [applyPayload]
      exact hp
  | nested c =>
      have hc := ih c (by simp [Payload.changes]) hp
      cases w with
      | nested d =>
          rw [Draft.workingPlain_nested] at hw
          rw [applyPayload_nested, Draft.workingPlain_nested]
          rintro _ ⟨⟩
          exact plain_applyRecord hc hw
      | _ =>
          rw [applyPayload, Draft.WorkingPlain]
          · exact hc _ (Draft.plain_new c.layout c.key)
          · simp
  | keySet cs =>
      cases w with
      | keySet ms => trivial
      | _ => simpa [applyPayload] using hw
  | valueMap cs =>
      cases w with
      | valueMap es =>
          rw [applyPayload, Draft.WorkingPlain]
          intro e he
          rcases EntryChange.mem_applyAll he with he | ⟨c, hc, hv⟩
          · exact hw e he
          · exact hp c hc e.2 hv
      | _ => simpa [applyPayload] using hw
  | modelMap cs =>
      cases w with
      | modelMap es =>
          rw [PayloadPlain, entriesPlain_iff] at hp
          rw [Draft.WorkingPlain, Draft.entriesPlain_iff] at hw
          rw [applyPayload, Draft.WorkingPlain, Draft.entriesPlain_iff]
          apply RecordEntryChange.forall_applyEntries ?_ hw
          intro c hc d hd
          exact plain_applyRecord (ih c.change (List.mem_map_of_mem hc) (hp c hc)) hd
      | _ => simpa [applyPayload] using hw

theorem plain_applyFields {ps : List (Option (Payload Change))}
    (hps : ∀ p, some p ∈ ps → PayloadPlain p)
    (ih : ∀ p, some p ∈ ps → ∀ c ∈ p.changes, c.Plain → c.KeepsPlain)
    {ss : List (Slot Snapshot Draft)} (hss : ∀ s ∈ ss, Draft.SlotPlain s) :
    ∀ s ∈ applyFields ps ss, Draft.SlotPlain s := by
  induction ps generalizing ss with
  | nil => simpa [applyFields] using hss
  | cons p ps ihps =>
      cases ss with
      | nil => simp [applyFields]
      | cons s ss =>
          rw [List.forall_mem_cons] at hss
          have hrest := ihps (fun q hq => hps q (List.mem_cons_of_mem _ hq))
            (fun q hq => ih q (List.mem_cons_of_mem _ hq)) hss.2
          cases p with
          | none =>
              rw [applyFields, List.forall_mem_cons]
              exact ⟨hss.1, hrest⟩
          | some p =>
              rw [applyFields, List.forall_mem_cons]
              refine ⟨?_, hrest⟩
              exact workingPlain_applyPayload (hps p (by simp)) (ih p (by simp))
                (Draft.workingPlain_working hss.1)

theorem keepsPlain_of_plain {c : Change} (hc : c.Plain) : c.KeepsPlain := by
  induction c using Change.induction with
  | step c ih =>
      intro d hd
      rw [applyTo_eq]
      split
      · exact Draft.plain_iff.2 (Draft.plain_iff.1 (Draft.plain_new d.layout d.key))
      · rw [Draft.plain_iff]
        exact plain_applyFields (plain_iff.1 hc) (fun p hp e he hplain => ih p hp e he hplain)
          (Draft.plain_iff.1 hd)

end Change

/-! ### Plain edits -/

mutual

/-- There are only plain values in the edit. -/
def Edit.Plain : Edit → Prop
  | .apply c => c.Plain
  | .field _ e => FieldEdit.Plain e
  | _ => True

def FieldEdit.Plain : FieldEdit → Prop
  | .set w => Draft.WorkingPlain w
  | .putValue _ v => v.isPlain = true
  | .putRecord _ d => d.Plain
  | .nested e => Edit.Plain e
  | .entry _ e => Edit.Plain e
  | _ => True

end

namespace Draft

theorem plain_materialise {d : Draft} (hd : d.Plain) : d.materialise.Plain := by
  induction d using Draft.induction_working with
  | step d ih =>
      rw [materialise_eq, plain_iff]
      rw [List.forall_mem_map]
      intro s hs
      rw [materialise_slot]
      exact workingPlain_map (ih s hs) (workingPlain_working (plain_iff.1 hd s hs))

theorem plain_set {d : Draft} (hd : d.Plain) (i : Nat) {w : Working Draft} (hw : WorkingPlain w) :
    Plain { d with slots := d.slots.set i (.touched w) } := by
  rw [plain_iff]
  intro s hs
  rcases List.mem_or_eq_of_mem_set hs with hs | rfl
  · exact plain_iff.1 hd s hs
  · exact hw

end Draft

theorem FieldEdit.plain_remove (k : Key) {w : Working Draft} (hw : Draft.WorkingPlain w) :
    Draft.WorkingPlain ((FieldEdit.remove k).run w).1 := by
  cases w with
  | valueMap es =>
      rw [FieldEdit.run, Draft.WorkingPlain]
      exact fun e he => hw e ((Keyed.erase_sublist k es).subset he)
  | modelMap es =>
      rw [Draft.WorkingPlain, Draft.entriesPlain_iff] at hw
      rw [FieldEdit.run, Draft.WorkingPlain, Draft.entriesPlain_iff]
      exact fun e he => hw e ((Keyed.erase_sublist k es).subset he)
  | keySet ms => trivial
  | _ => simpa [FieldEdit.run] using hw

mutual

/-- A plain edit of a plain draft leaves it plain. -/
theorem Edit.plain_run : (e : Edit) → e.Plain → ∀ {d : Draft}, d.Plain → (e.run d).1.Plain
  | .reset, _, d, _ => by
      rw [Edit.run]
      exact Draft.plain_iff.2 (Draft.plain_iff.1 (Draft.plain_new d.layout d.key))
  | .materialise, _, d, hd => by
      rw [Edit.run]
      exact Draft.plain_materialise hd
  | .setLastIntent i, _, d, hd => by
      have hslots := Draft.plain_iff.1 hd
      rw [Edit.run, Draft.plain_iff]
      exact hslots
  | .apply c, hc, d, hd => by
      rw [Edit.run_apply]
      split
      · exact Change.keepsPlain_of_plain hc d hd
      · exact hd
  | .look, _, d, hd => by
      rw [Edit.run]
      exact hd
  | .field name e, he, d, hd => by
      rcases Edit.run_field_cases name e d with ⟨-, hrun⟩ | ⟨i, s, -, hslot, hrun⟩
      · rw [hrun]
        exact hd
      · have hs := Draft.plain_iff.1 hd s (List.mem_of_getElem? hslot)
        rw [hrun]
        exact Draft.plain_set hd i (e.plain_run he (Draft.workingPlain_working hs))

theorem FieldEdit.plain_run : (e : FieldEdit) → e.Plain → ∀ {w : Working Draft},
    Draft.WorkingPlain w → Draft.WorkingPlain (e.run w).1
  | .touch, _, w, hw => by
      rw [FieldEdit.run]
      exact hw
  | .set w', hw', w, _ => by
      rw [FieldEdit.run]
      exact hw'
  | .insert k, _, w, hw => by
      cases w with
      | keySet ms => trivial
      | _ => simpa [FieldEdit.run] using hw
  | .remove k, _, w, hw => FieldEdit.plain_remove k hw
  | .clear, _, w, hw => by
      cases w with
      | keySet ms => trivial
      | valueMap es => simp [FieldEdit.run, Draft.WorkingPlain]
      | modelMap es => simp [FieldEdit.run, Draft.WorkingPlain, Draft.EntriesPlain]
      | _ => simpa [FieldEdit.run] using hw
  | .putValue k v, hv, w, hw => by
      cases w with
      | valueMap es =>
          rw [FieldEdit.run, Draft.WorkingPlain]
          intro e he
          rcases Keyed.mem_insert he with rfl | he
          · exact hv
          · exact hw e he
      | _ => simpa [FieldEdit.run] using hw
  | .putRecord k d, hd, w, hw => by
      cases w with
      | modelMap es =>
          rw [Draft.WorkingPlain, Draft.entriesPlain_iff] at hw
          rw [FieldEdit.run, Draft.WorkingPlain, Draft.entriesPlain_iff]
          intro e he
          rcases Keyed.mem_insert he with rfl | he
          · exact hd
          · exact hw e he
      | _ => simpa [FieldEdit.run] using hw
  | .nested e, he, w, hw => by
      cases w with
      | nested d =>
          cases d with
          | none => simpa [FieldEdit.run] using hw
          | some d =>
              rw [FieldEdit.run]
              exact e.plain_run he hw
      | _ => simpa [FieldEdit.run] using hw
  | .entry k e, he, w, hw => by
      cases w with
      | modelMap es =>
          rw [FieldEdit.run]
          cases hfind : Keyed.find? k es with
          | none => exact hw
          | some d =>
              rw [Draft.WorkingPlain, Draft.entriesPlain_iff] at hw ⊢
              intro f hf
              rcases Keyed.mem_insert hf with rfl | hf
              · exact e.plain_run he (hw (k, d) (Keyed.mem_of_find? hfind))
              · exact hw f hf
      | _ => simpa [FieldEdit.run] using hw

end

namespace Draft

theorem plain_edited {d : Draft} (hd : d.Plain) {edits : List Edit}
    (hedits : ∀ e ∈ edits, e.Plain) : (d.edited edits).Plain := by
  induction edits generalizing d with
  | nil => exact hd
  | cons e edits ih =>
      rw [List.forall_mem_cons] at hedits
      exact ih (e.plain_run hedits.1 hd) hedits.2

end Draft

end VersionedRecords
