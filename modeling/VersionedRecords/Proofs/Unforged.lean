import VersionedRecords.Proofs.Concordance
import VersionedRecords.Proofs.Obtaining

/-!
Changes that are found and changes that are merged of them.

No comparison deletes an entry without deleting its sub-record, or the other way round, and none
sets an entry without a value.  So the elements agree with what is carried for them in all changes
that are found, and in all that is merged of those, in whatever order and whether or not the changes
follow upon each other.  Only a change that is put together by hand may say one thing of an element
and carry another.
-/

namespace VersionedRecords

/-! ### Comparing -/

theorem EntryChange.agrees_of_mem_between {es es' : Keyed Datum} {c : EntryChange}
    (hc : c ∈ between es es') : c.Agrees := by
  rcases List.mem_append.1 hc with hc | hc
  · obtain ⟨e, -, rfl⟩ := List.mem_map.1 hc
    simp [Agrees]
  · obtain ⟨e, -, hec⟩ := List.mem_filterMap.1 hc
    rw [ofPair?] at hec
    split at hec
    · cases hec
      simp [Agrees]
    · split at hec <;> cases hec
      simp [Agrees]

namespace Snapshot

theorem agrees_of_entryTeardown? {e : Key × Snapshot} {c : RecordEntryChange Change}
    (hc : entryTeardown? e = some c) : c.Agrees := by
  obtain ⟨d, hd, rfl⟩ := Option.map_eq_some_iff.1 hc
  exact RecordEntryChange.agrees_iff.2 (iff_of_true rfl (of_teardown hd).2)

theorem concordant_of_mem_teardownEntries {es : List (Key × Snapshot)}
    (ih : ∀ e ∈ es, ∀ c, e.2.teardown = some c → c.Concordant) {c : RecordEntryChange Change}
    (hc : c ∈ teardownEntries es) : c.Agrees ∧ c.change.Concordant := by
  rw [teardownEntries_eq_filterMap] at hc
  obtain ⟨e, he, hec⟩ := List.mem_filterMap.1 hc
  refine ⟨agrees_of_entryTeardown? hec, ?_⟩
  obtain ⟨d, hd, rfl⟩ := Option.map_eq_some_iff.1 hec
  exact ih e he d hd

theorem concordant_teardownValue {kind : FieldKind} {v : Value Snapshot}
    (ih : ∀ s ∈ v.records, ∀ c, s.teardown = some c → c.Concordant) {p : Payload Change}
    (hp : teardownValue kind v = some p) : p.Concordant := by
  unfold teardownValue at hp
  split at hp
  · split at hp <;> cases hp
    simp
  · split at hp <;> cases hp
    simp
  · next s =>
    obtain ⟨c, hc, rfl⟩ := Option.map_eq_some_iff.1 hp
    exact Payload.concordant_nested.2 (ih s (by simp [Value.records]) c hc)
  · exact Payload.concordant_of_keySet hp
  · exact Payload.concordant_of_valueMap (fun c => EntryChange.agrees_of_mem_between) hp
  · refine Payload.concordant_of_modelMap (fun c => concordant_of_mem_teardownEntries ?_) hp
    exact fun e he => ih e.2 (List.mem_map_of_mem he)
  · cases hp

theorem concordant_teardown {s : Snapshot} {c : Change} (hc : s.teardown = some c) :
    c.Concordant := by
  induction s using Snapshot.induction generalizing c with
  | step s ih =>
      rw [teardown_eq] at hc
      refine Accumulator.concordant_of_gather (fun p hp => ?_) hc
      obtain ⟨kind, -, v, hv, hkv⟩ := exists_of_mem_zipWith hp
      exact concordant_teardownValue (fun t ht c => ih v hv t ht) hkv

/-- Whatever the record is compared with, a change that is found is concordant. -/
def FindsConcord (s : Snapshot) : Prop :=
  ∀ intent base c, s.diffFrom intent base = some c → c.Concordant

theorem concordant_of_changeFrom? {r : Option Snapshot} {s : Snapshot} (hs : s.FindsConcord)
    {c : Change} (hc : changeFrom? r s = some c) : c.Concordant := by
  cases r with
  | none => exact hs _ _ c hc
  | some r =>
      simp only [changeFrom?] at hc
      split at hc
      · cases hc
      · split at hc <;> exact hs _ _ c hc

/-- A record that is there is not deleted. -/
theorem intent_ne_delete_of_changeFrom? {r : Option Snapshot} {s : Snapshot} {c : Change}
    (hc : changeFrom? r s = some c) : c.intent ≠ .delete := by
  cases r with
  | none => simp [(of_diffFrom hc).2]
  | some r =>
      simp only [changeFrom?] at hc
      split at hc
      · cases hc
      · split at hc <;> simp [(of_diffFrom hc).2]

theorem concordant_of_mem_between {es es' : Keyed Snapshot}
    (ih : ∀ e ∈ es', e.2.FindsConcord) {c : RecordEntryChange Change}
    (hc : c ∈ RecordEntryChange.between es es') : c.Agrees ∧ c.change.Concordant := by
  rw [RecordEntryChange.between, List.mem_append] at hc
  rcases hc with hc | hc
  · exact concordant_of_mem_teardownEntries (fun e _ c => concordant_teardown) hc
  · rw [diffEntries_eq_filterMap] at hc
    obtain ⟨e, he, hec⟩ := List.mem_filterMap.1 hc
    obtain ⟨d, hd, rfl⟩ := Option.map_eq_some_iff.1 hec
    refine ⟨RecordEntryChange.agrees_iff.2 (iff_of_false ?_ (intent_ne_delete_of_changeFrom? hd)),
      concordant_of_changeFrom? (ih e he) hd⟩
    cases Keyed.find? e.1 es <;> simp [entryIntent]

theorem concordant_diffValue {r v : Value Snapshot} (ih : ∀ s ∈ v.records, s.FindsConcord)
    {p : Payload Change} (hp : diffValue r v = some p) : p.Concordant := by
  unfold diffValue at hp
  split at hp
  · obtain ⟨-, hp⟩ := Option.ite_none_left_eq_some.1 hp
    cases hp
    simp
  · obtain ⟨-, hp⟩ := Option.ite_none_left_eq_some.1 hp
    cases hp
    simp
  · next s =>
    obtain ⟨c, hc, rfl⟩ := Option.map_eq_some_iff.1 hp
    exact Payload.concordant_nested.2 (ih s (by simp [Value.records]) _ _ c hc)
  · next r s =>
    have hs := ih s (by simp [Value.records])
    obtain ⟨-, hp⟩ := Option.ite_none_left_eq_some.1 hp
    split at hp <;> obtain ⟨c, hc, rfl⟩ := Option.map_eq_some_iff.1 hp
    · exact Payload.concordant_nested.2 (hs _ _ c hc)
    · exact Payload.concordant_nested.2 (hs _ _ c hc)
  · obtain ⟨c, hc, rfl⟩ := Option.map_eq_some_iff.1 hp
    exact Payload.concordant_nested.2 (concordant_teardown hc)
  · exact Payload.concordant_of_keySet (Option.ite_none_left_eq_some.1 hp).2
  · exact Payload.concordant_of_valueMap (fun c => EntryChange.agrees_of_mem_between)
      (Option.ite_none_left_eq_some.1 hp).2
  · refine Payload.concordant_of_modelMap (fun c => concordant_of_mem_between ?_)
      (Option.ite_none_left_eq_some.1 hp).2
    exact fun e he => ih e.2 (List.mem_map_of_mem he)
  · cases hp

theorem findsConcord (s : Snapshot) : s.FindsConcord := by
  induction s using Snapshot.induction with
  | step s ih =>
      intro intent base c hc
      rw [diffFrom_eq] at hc
      refine Accumulator.concordant_of_gather (fun p hp => ?_) hc
      obtain ⟨r, -, v, hv, hrv⟩ := exists_of_mem_zipWith hp
      exact concordant_diffValue (ih v hv) hrv

end Snapshot

namespace Draft

/-- Whatever the draft is compared with, a change that is found is concordant. -/
def FindsConcord (d : Draft) : Prop :=
  ∀ intent base c, d.diffFrom intent base = some c → c.Concordant

theorem concordant_of_changeFrom? {r : Option Snapshot} {d : Draft} (hd : d.FindsConcord)
    {c : Change} (hc : changeFrom? r d = some c) : c.Concordant := by
  cases r with
  | none => exact hd _ _ c hc
  | some r =>
      rw [changeFrom?] at hc
      split at hc <;> exact hd _ _ c hc

theorem intent_ne_delete_of_changeFrom? {r : Option Snapshot} {d : Draft} {c : Change}
    (hc : changeFrom? r d = some c) : c.intent ≠ .delete := by
  cases r with
  | none => simp [(of_diffFrom hc).2]
  | some r =>
      rw [changeFrom?] at hc
      split at hc <;> simp [(of_diffFrom hc).2]

theorem intent_ne_delete_of_entryDiff? {reference : Keyed Snapshot} {e : Key × Draft}
    {c : RecordEntryChange Change} (hc : entryDiff? reference e = some c) :
    c.intent ≠ .delete := by
  rw [entryDiff?] at hc
  obtain ⟨-, hc⟩ := Option.ite_none_left_eq_some.1 hc
  split at hc
  · obtain ⟨d, -, rfl⟩ := Option.map_eq_some_iff.1 hc
    simp
  · split at hc <;> obtain ⟨d, -, rfl⟩ := Option.map_eq_some_iff.1 hc <;> simp

theorem concordant_of_mem_betweenDrafts {es : Keyed Snapshot} {es' : Keyed Draft}
    (ih : ∀ e ∈ es', e.2.FindsConcord) {c : RecordEntryChange Change}
    (hc : c ∈ RecordEntryChange.betweenDrafts es es') : c.Agrees ∧ c.change.Concordant := by
  rw [RecordEntryChange.betweenDrafts, List.mem_append] at hc
  rcases hc with hc | hc
  · exact Snapshot.concordant_of_mem_teardownEntries (fun e _ c => Snapshot.concordant_teardown) hc
  · rw [diffEntries_eq_filterMap] at hc
    obtain ⟨e, he, hec⟩ := List.mem_filterMap.1 hc
    have hchange := changeFrom?_of_entryDiff? hec
    refine ⟨RecordEntryChange.agrees_iff.2 (iff_of_false (intent_ne_delete_of_entryDiff? hec)
      (intent_ne_delete_of_changeFrom? hchange)), concordant_of_changeFrom? (ih e he) hchange⟩

theorem concordant_diffWorking {r : Value Snapshot} {w : Working Draft}
    (ih : ∀ d ∈ w.drafts, d.FindsConcord) {p : Payload Change} (hp : diffWorking r w = some p) :
    p.Concordant := by
  unfold diffWorking at hp
  split at hp
  · obtain ⟨-, hp⟩ := Option.ite_none_left_eq_some.1 hp
    cases hp
    simp
  · obtain ⟨-, hp⟩ := Option.ite_none_left_eq_some.1 hp
    cases hp
    simp
  · next d =>
    obtain ⟨c, hc, rfl⟩ := Option.map_eq_some_iff.1 (Option.ite_none_left_eq_some.1 hp).2
    exact Payload.concordant_nested.2 (ih d (by simp [Working.drafts]) _ _ c hc)
  · next r d =>
    have hd := ih d (by simp [Working.drafts])
    split at hp
    · obtain ⟨c, hc, rfl⟩ := Option.map_eq_some_iff.1 hp
      exact Payload.concordant_nested.2 (Snapshot.concordant_teardown hc)
    · split at hp <;> obtain ⟨c, hc, rfl⟩ := Option.map_eq_some_iff.1 hp
      · exact Payload.concordant_nested.2 (hd _ _ c hc)
      · exact Payload.concordant_nested.2 (hd _ _ c hc)
  · obtain ⟨c, hc, rfl⟩ := Option.map_eq_some_iff.1 hp
    exact Payload.concordant_nested.2 (Snapshot.concordant_teardown hc)
  · exact Payload.concordant_of_keySet hp
  · exact Payload.concordant_of_valueMap (fun c => EntryChange.agrees_of_mem_between) hp
  · refine Payload.concordant_of_modelMap (fun c => concordant_of_mem_betweenDrafts ?_) hp
    exact fun e he => ih e.2 (List.mem_map_of_mem he)
  · cases hp

theorem concordant_diffSlot {r : Value Snapshot} {s : Slot Snapshot Draft}
    (ih : ∀ w, s = .touched w → ∀ d ∈ w.drafts, d.FindsConcord) {p : Payload Change}
    (hp : diffSlot r s = some p) : p.Concordant := by
  cases s with
  | deferred v => exact Snapshot.concordant_diffValue (fun t _ => t.findsConcord) hp
  | touched w => exact concordant_diffWorking (ih w rfl) hp

theorem findsConcord (d : Draft) : d.FindsConcord := by
  induction d using Draft.induction with
  | step d ih =>
      intro intent base c hc
      rw [diffFrom_eq] at hc
      refine Accumulator.concordant_of_gather (fun p hp => ?_) hc
      obtain ⟨r, -, s, hs, hrs⟩ := exists_of_mem_zipWith hp
      refine concordant_diffSlot ?_ hrs
      rintro w rfl
      exact ih w hs

end Draft

/-! ### What is found and what is merged of it -/

mutual

/-- The accumulators that take in nothing but what has been found or merged. -/
inductive Accumulator.Unforged : Accumulator → Prop
  | start (layout : Layout) (intent : Intent) (key : Key) :
      Accumulator.Unforged (.start layout intent key)
  | ofChange {c : Change} (hc : Change.Unforged c) : Accumulator.Unforged (.ofChange c)
  | add {a a' : Accumulator} {c : Change} (ha : Accumulator.Unforged a)
      (hc : Change.Unforged c) (hadd : a.add c = .ok a') : Accumulator.Unforged a'
  | diffInto {a a' : Accumulator} {d : Draft} {r : Snapshot} (ha : Accumulator.Unforged a)
      (hinto : d.diffInto a r = .ok a') : Accumulator.Unforged a'

/-- The changes that are found by a comparison, told by a version or a draft, merged of such
changes, or part of one. -/
inductive Change.Unforged : Change → Prop
  | build {a : Accumulator} {c : Change} (ha : Accumulator.Unforged a)
      (hc : a.build = some c) : Change.Unforged c
  | diff {d : Draft} {c : Change} (hc : d.diff = some c) : Change.Unforged c
  | diffAgainst {d : Draft} {r : Snapshot} {intent : Intent} {c : Change}
      (hc : d.diffAgainst intent r = .ok (some c)) : Change.Unforged c
  | ofDraft {d : Draft} {intent : Intent} {c : Change} (hc : d.toChange intent = some c) :
      Change.Unforged c
  | ofSnapshot {s : Snapshot} {intent : Intent} {c : Change} (hc : s.toChange intent = some c) :
      Change.Unforged c
  | field {r s : Option Snapshot} {c : Change} (hc : Snapshot.fieldChange? r s = some c) :
      Change.Unforged c
  | draftField {r : Option Snapshot} {d : Option Draft} {c : Change}
      (hc : Draft.fieldChange? r d = some c) : Change.Unforged c
  | nested {c d : Change} (hc : Change.Unforged c) (hd : some (.nested d) ∈ c.fields) :
      Change.Unforged d
  | ofEntry {e : RecordEntryChange Change} (he : RecordEntryChange.Unforged e) :
      Change.Unforged e.change

/-- The same of changes of entries with sub-records. -/
inductive RecordEntryChange.Unforged : RecordEntryChange Change → Prop
  | between {es es' : Keyed Snapshot} {e : RecordEntryChange Change}
      (he : e ∈ RecordEntryChange.between es es') : RecordEntryChange.Unforged e
  | betweenDrafts {es : Keyed Snapshot} {es' : Keyed Draft} {e : RecordEntryChange Change}
      (he : e ∈ RecordEntryChange.betweenDrafts es es') : RecordEntryChange.Unforged e
  | carried {c : Change} {es : List (RecordEntryChange Change)} {e : RecordEntryChange Change}
      (hc : Change.Unforged c) (hes : some (.modelMap es) ∈ c.fields) (he : e ∈ es) :
      RecordEntryChange.Unforged e
  | build {a : RecordEntryAccumulator} {e : RecordEntryChange Change}
      (ha : RecordEntryAccumulator.Unforged a) (he : a.build = some e) :
      RecordEntryChange.Unforged e

/-- The accumulators of entries with sub-records that take in nothing but such changes. -/
inductive RecordEntryAccumulator.Unforged : RecordEntryAccumulator → Prop
  | ofChange {e : RecordEntryChange Change} (he : RecordEntryChange.Unforged e) :
      RecordEntryAccumulator.Unforged (.ofChange e)
  | add {a a' : RecordEntryAccumulator} {e : RecordEntryChange Change}
      (ha : RecordEntryAccumulator.Unforged a) (he : RecordEntryChange.Unforged e)
      (hadd : a.add e = .ok a') : RecordEntryAccumulator.Unforged a'

end

mutual

/-- The same of changes of entries with values. -/
inductive EntryChange.Unforged : EntryChange → Prop
  | between {es es' : Keyed Datum} {e : EntryChange} (he : e ∈ EntryChange.between es es') :
      EntryChange.Unforged e
  | carried {c : Change} {es : List EntryChange} {e : EntryChange} (hc : c.Unforged)
      (hes : some (.valueMap es) ∈ c.fields) (he : e ∈ es) : EntryChange.Unforged e
  | build {a : EntryAccumulator} (ha : EntryAccumulator.Unforged a) : EntryChange.Unforged a.build

/-- The accumulators of entries with values that take in nothing but such changes. -/
inductive EntryAccumulator.Unforged : EntryAccumulator → Prop
  | ofChange {e : EntryChange} (he : EntryChange.Unforged e) :
      EntryAccumulator.Unforged (.ofChange e)
  | add {a a' : EntryAccumulator} {e : EntryChange} (ha : EntryAccumulator.Unforged a)
      (he : EntryChange.Unforged e) (hadd : a.add e = .ok a') : EntryAccumulator.Unforged a'

end

theorem RecordEntryAccumulator.eq_of_add {a a' : RecordEntryAccumulator}
    {e : RecordEntryChange Change} (h : a.add e = .ok a') :
    a' = ⟨a.key, e.merged (some a.state)⟩ := by
  simp only [add, requireSameKey] at h
  split at h <;> cases h
  rfl

theorem EntryAccumulator.eq_of_add {a a' : EntryAccumulator} {e : EntryChange}
    (h : a.add e = .ok a') : a' = ⟨a.state.absorb e.intent, a.key, e.value⟩ := by
  simp only [add, requireSameKey] at h
  split at h <;> cases h
  rfl

theorem Accumulator.Concordant.diffInto {a a' : Accumulator} (ha : a.Concordant) {d : Draft}
    {r : Snapshot} (h : d.diffInto a r = .ok a') : a'.Concordant := by
  rw [eq_of_diffInto h]
  refine ha.absorbFields fun p hp => ?_
  rw [Draft.diffSlots_eq_zipWith] at hp
  obtain ⟨r, -, s, -, hrs⟩ := exists_of_mem_zipWith hp
  exact Draft.concordant_diffSlot (fun w _ e _ => e.findsConcord) hrs

theorem Draft.concordant_of_diffAgainst {d : Draft} {r : Snapshot} {intent : Intent} {c : Change}
    (hc : d.diffAgainst intent r = .ok (some c)) : c.Concordant := by
  rw [diffAgainst, requireSameKey] at hc
  split at hc
  · exact d.findsConcord _ _ c (Except.ok.inj hc)
  · cases hc

theorem Draft.concordant_of_toChange {d : Draft} {intent : Intent} {c : Change}
    (hc : d.toChange intent = some c) : c.Concordant := by
  cases intent with
  | delete =>
      rw [toChange] at hc
      split at hc <;> exact Snapshot.concordant_teardown hc
  | add => exact d.findsConcord _ _ c hc
  | update => exact d.findsConcord _ _ c hc

theorem Snapshot.concordant_of_toChange {s : Snapshot} {intent : Intent} {c : Change}
    (hc : s.toChange intent = some c) : c.Concordant := by
  cases intent with
  | delete => exact concordant_teardown hc
  | add => exact s.findsConcord _ _ c hc
  | update => exact s.findsConcord _ _ c hc

theorem Snapshot.concordant_of_fieldChange? {r s : Option Snapshot} {c : Change}
    (hc : fieldChange? r s = some c) : c.Concordant := by
  rw [fieldChange?] at hc
  split at hc <;> cases hc
  next hfound =>
  exact Payload.concordant_nested.1 (concordant_diffValue (fun t _ => t.findsConcord) hfound)

theorem Draft.concordant_of_fieldChange? {r : Option Snapshot} {d : Option Draft} {c : Change}
    (hc : fieldChange? r d = some c) : c.Concordant := by
  rw [fieldChange?] at hc
  split at hc <;> cases hc
  next hfound =>
  exact Payload.concordant_nested.1 (concordant_diffWorking (fun e _ => e.findsConcord) hfound)

mutual

theorem Accumulator.Unforged.concordant {a : Accumulator} (h : a.Unforged) : a.Concordant :=
  match h with
  | .start layout intent key => Accumulator.concordant_start layout intent key
  | .ofChange hc => Accumulator.concordant_ofChange hc.concordant
  | .add ha hc hadd => by
      rw [Accumulator.eq_absorb_of_add hadd]
      exact Accumulator.keepsConcord hc.concordant _ ha.concordant
  | .diffInto ha hinto => ha.concordant.diffInto hinto

theorem Change.Unforged.concordant {c : Change} (h : c.Unforged) : c.Concordant :=
  match h with
  | .build ha hc => ha.concordant.of_build hc
  | .diff hc => by
      rw [Draft.diff_eq_diffFrom] at hc
      exact Draft.findsConcord _ _ _ _ hc
  | .diffAgainst hc => Draft.concordant_of_diffAgainst hc
  | .ofDraft hc => Draft.concordant_of_toChange hc
  | .ofSnapshot hc => Snapshot.concordant_of_toChange hc
  | .field hc => Snapshot.concordant_of_fieldChange? hc
  | .draftField hc => Draft.concordant_of_fieldChange? hc
  | .nested hc hd => Payload.concordant_nested.1 (Change.concordant_iff.1 hc.concordant _ hd)
  | .ofEntry he => he.concordant.2

theorem RecordEntryChange.Unforged.concordant {e : RecordEntryChange Change} (h : e.Unforged) :
    e.Agrees ∧ e.change.Concordant :=
  match h with
  | .between he => Snapshot.concordant_of_mem_between (fun t _ => t.2.findsConcord) he
  | .betweenDrafts he => Draft.concordant_of_mem_betweenDrafts (fun t _ => t.2.findsConcord) he
  | .carried hc hes he =>
      Payload.concordant_modelMap.1 (Change.concordant_iff.1 hc.concordant _ hes) _ he
  | .build (a := a) ha he => by
      obtain ⟨hagrees, hpending⟩ := ha.concordant
      refine ⟨Accumulator.agrees_of_ofState? (e := (a.key, a.state)) hagrees he, ?_⟩
      obtain ⟨c, hc, rfl⟩ := Option.map_eq_some_iff.1 he
      exact hpending.of_build hc

theorem RecordEntryAccumulator.Unforged.concordant {a : RecordEntryAccumulator}
    (h : a.Unforged) : a.state.Agrees ∧ a.state.pending.Concordant :=
  match h with
  | .ofChange he => ⟨he.concordant.1.merged none, Accumulator.concordant_ofChange he.concordant.2⟩
  | .add ha he hadd => by
      have hc := he.concordant
      rw [RecordEntryAccumulator.eq_of_add hadd]
      refine Accumulator.concordant_merged hc.1 hc.2 (Accumulator.keepsConcord hc.2) ?_
      simpa using ha.concordant.2

end

mutual

theorem EntryChange.Unforged.agrees {e : EntryChange} (h : e.Unforged) : e.Agrees :=
  match h with
  | .between he => EntryChange.agrees_of_mem_between he
  | .carried hc hes he =>
      Payload.concordant_valueMap.1 (Change.concordant_iff.1 hc.concordant _ hes) _ he
  | .build ha => ha.agrees

theorem EntryAccumulator.Unforged.agrees {a : EntryAccumulator} (h : a.Unforged) :
    EntryState.Agrees ⟨a.state, a.value⟩ :=
  match h with
  | .ofChange he => he.agrees.merged none
  | .add (a := a) ha he hadd => by
      rw [EntryAccumulator.eq_of_add hadd]
      exact he.agrees.merged (some ⟨a.state, a.value⟩)

end

/-- Whatever is found by comparisons and merged of what is found, an entry is deleted exactly if the
deletion of its sub-record is carried for it, an update of the sub-record is carried only for an
entry that stays, and an entry with a value is deleted exactly if no value is carried; so at every
depth of every change, and of every change of an entry. -/
theorem Change.elements_agree :
    (∀ c : Change, c.Unforged → c.Concordant) ∧
      (∀ e : RecordEntryChange Change, e.Unforged → e.Agrees ∧ e.change.Concordant) ∧
        ∀ e : EntryChange, e.Unforged → e.Agrees :=
  ⟨fun _ h => h.concordant, fun _ h => h.concordant, fun _ h => h.agrees⟩

/-- The node below the root is taken away twice and then put there. -/
def Samples.replanted : Option Change := do
  let planted ← Snapshot.fieldChange? (some (tree 1 "root" [])) (some (family "leaf"))
  let felled ← Snapshot.fieldChange? (some (family "leaf")) (some (tree 1 "root" []))
  let twice ← ((Accumulator.ofChange felled).add felled).toOption
  let merged ← (twice.add planted).toOption
  merged.build

/-- What a change of a node says of each entry below, and of the node that it carries for it. -/
def Samples.saidBelow (c : Change) : List (Intent × Intent) :=
  match c.fields with
  | [_, some (.modelMap es)] => es.map fun e => (e.intent, e.change.intent)
  | _ => []

/-- The entry was there before, the node that it holds now was not. -/
theorem Change.elements_agree_of_replanted :
    ∃ m e, Samples.replanted = some m ∧ some (.modelMap [e]) ∈ m.fields ∧ e.intent = .update ∧
      e.change.intent = .add ∧ m.Concordant ∧ e.Agrees := by
  have hcomputed : Samples.replanted.map Samples.saidBelow = some [(.update, .add)] := by
    decide +kernel
  obtain ⟨m, hm, hsaid⟩ := Option.map_eq_some_iff.1 hcomputed
  obtain ⟨e, hmem, hsame⟩ : ∃ e : RecordEntryChange Change,
      some (.modelMap [e]) ∈ m.fields ∧ (e.intent, e.change.intent) = (.update, .add) := by
    rw [Samples.saidBelow] at hsaid
    split at hsaid
    · next es hfields =>
      obtain ⟨e, rfl, hsame⟩ := List.map_eq_singleton_iff.1 hsaid
      exact ⟨e, by simp [hfields], hsame⟩
    · cases hsaid
  obtain ⟨hintent, hcarried⟩ := Prod.mk.inj hsame
  have hok : ∀ (x : Except IdentityMismatch Accumulator) a, x.toOption = some a → x = .ok a := by
    rintro (_ | _) a ⟨⟩
    rfl
  have hunforged : m.Unforged := by
    obtain ⟨p, hp, hm⟩ := Option.bind_eq_some_iff.1 hm
    obtain ⟨c, hc, hm⟩ := Option.bind_eq_some_iff.1 hm
    obtain ⟨a, ha, hm⟩ := Option.bind_eq_some_iff.1 hm
    obtain ⟨b, hb, hm⟩ := Option.bind_eq_some_iff.1 hm
    have htwice := Accumulator.Unforged.add (.ofChange (.field hc)) (.field hc) (hok _ a ha)
    exact .build (.add htwice (.field hp) (hok _ b hb)) hm
  obtain ⟨hchanges, hentries, -⟩ := elements_agree
  exact ⟨m, e, hm, hmem, hintent, hcarried, hchanges m hunforged,
    (hentries e (.carried hunforged hmem List.mem_cons_self)).1⟩

end VersionedRecords
