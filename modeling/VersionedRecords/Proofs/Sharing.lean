import VersionedRecords.Proofs.Difference

/-!
Differences are a matter of content.

On plain snapshots the short cuts for shared parts cannot be seen, and where the parts of the
current version were put together does not matter either.
-/

namespace VersionedRecords

namespace Snapshot

variable {models : String → Layout}

/-! ### Shared parts make no difference -/

/-- What leads from one optional sub-record to another, sharing left aside. -/
def recordChange? : Option Snapshot → Option Snapshot → Option Change
  | none, none => none
  | none, some s => s.diffFrom .add s.layout.zeros
  | some r, some s =>
    if r.identity = s.identity then s.diffFrom .update r.fields
    else s.diffFrom .add s.layout.zeros
  | some r, none => r.teardown

/-- What becomes of a sub-record is that it is deleted, that it is updated, or that another one is
created in its place. -/
theorem recordChange?_cases {r s : Option Snapshot} {c : Change} (h : recordChange? r s = some c) :
    (∃ v, r = some v ∧ s = none ∧ v.teardown = some c) ∨
    (∃ v w, r = some v ∧ s = some w ∧ v.identity = w.identity ∧
      w.diffFrom .update v.fields = some c) ∨
    (∃ w, s = some w ∧ (∀ v ∈ r, v.identity ≠ w.identity) ∧
      w.diffFrom .add w.layout.zeros = some c) := by
  cases s with
  | none =>
      cases r with
      | none => cases h
      | some v => exact .inl ⟨v, rfl, rfl, h⟩
  | some w =>
      cases r with
      | none => exact .inr (.inr ⟨w, rfl, by simp, h⟩)
      | some v =>
          rw [recordChange?] at h
          split at h
          · next hidentity => exact .inr (.inl ⟨v, w, rfl, rfl, hidentity, h⟩)
          · next hidentity => exact .inr (.inr ⟨w, rfl, by simpa using hidentity, h⟩)

theorem changeFrom?_eq {r : Option Snapshot}
    (hr : ∀ t ∈ r, t.Conforms models ∧ t.isPlain = true) (s : Snapshot) :
    changeFrom? r s = recordChange? r (some s) := by
  cases r with
  | none => rfl
  | some r =>
      obtain ⟨hconforms, hplain⟩ := hr r rfl
      rw [changeFrom?, recordChange?]
      split
      · next hshared =>
        obtain rfl := eq_of_isShared hshared
        rw [if_pos rfl]
        exact (((diffsExactly_of_conforms hconforms hplain).update_eq_none_iff hconforms hplain
          rfl).2 rfl).symm
      · rfl

theorem diffValue_keySet {o o' : Origin} {ms ms' : List Key} (hms : KeySet.Ascending ms) :
    diffValue (.keySet o ms) (.keySet o' ms') =
      (nonEmpty? (MemberChange.between ms ms')).map .keySet := by
  simp only [diffValue]
  split
  · next hshared =>
    obtain ⟨-, rfl⟩ := hshared
    rw [(MemberChange.between_eq_nil_iff hms hms).2 rfl]
    rfl
  · rfl

theorem diffValue_valueMap {o o' : Origin} {es es' : Keyed Datum} (hes : Keyed.Ascending es)
    (hplain : ∀ e ∈ es, e.2.isPlain = true) :
    diffValue (.valueMap o es) (.valueMap o' es') =
      (nonEmpty? (EntryChange.between es es')).map .valueMap := by
  simp only [diffValue]
  split
  · next hshared =>
    obtain ⟨-, rfl⟩ := hshared
    rw [(EntryChange.between_eq_nil_iff hes hes hplain hplain).2 rfl]
    rfl
  · rfl

theorem diffValue_nested {r s : Option Snapshot}
    (hr : ∀ t ∈ r, t.Conforms models ∧ t.isPlain = true) :
    diffValue (.nested r) (.nested s) = (recordChange? r s).map .nested := by
  cases s with
  | none => cases r <;> simp [diffValue, recordChange?]
  | some s => rw [diffValue_nested_some, changeFrom?_eq hr]

theorem entryDiff?_eq {reference : Keyed Snapshot} {e : Key × Snapshot}
    (hreference : ∀ r, Keyed.find? e.1 reference = some r →
      r.Conforms models ∧ r.isPlain = true) :
    entryDiff? reference e =
      (recordChange? (Keyed.find? e.1 reference) (some e.2)).map
        (⟨entryIntent (Keyed.find? e.1 reference) (some e.2), e.1, ·⟩) := by
  rw [entryDiff?, changeFrom?_eq hreference]

theorem entryOfKey?_eq {reference current : Keyed Snapshot} {k : Key}
    (hreference : ∀ r, Keyed.find? k reference = some r → r.Conforms models ∧ r.isPlain = true) :
    entryOfKey? reference current k =
      (recordChange? (Keyed.find? k reference) (Keyed.find? k current)).map
        (⟨entryIntent (Keyed.find? k reference) (Keyed.find? k current), k, ·⟩) := by
  unfold entryOfKey?
  cases hfind : Keyed.find? k current with
  | some s => exact @entryDiff?_eq models reference (k, s) hreference
  | none => cases Keyed.find? k reference <;> rfl

/-- Nothing leads from one version to another exactly if they have the same content. -/
theorem recordChange?_eq_none_iff {r s : Option Snapshot}
    (hr : ∀ t ∈ r, t.Conforms models ∧ t.isPlain = true)
    (hs : ∀ t ∈ s, t.Conforms models ∧ t.isPlain = true) :
    recordChange? r s = none ↔ r.map bare = s.map bare := by
  cases s with
  | some s =>
      obtain ⟨hconforms, hplain⟩ := hs s rfl
      rw [← changeFrom?_eq hr]
      exact changeFrom?_eq_none_iff hr (diffsExactly_of_conforms hconforms hplain)
  | none =>
      cases r with
      | none => simp [recordChange?]
      | some r =>
          obtain ⟨c, hc, -⟩ := exists_teardown (hr r rfl).1
          simp [recordChange?, hc]

theorem diffValue_modelMap {o o' : Origin} {es es' : Keyed Snapshot} (hes : Keyed.Ascending es)
    (hentries : ∀ e ∈ es, e.2.Conforms models ∧ e.2.isPlain = true) :
    diffValue (.modelMap o es) (.modelMap o' es') =
      (nonEmpty? (RecordEntryChange.between es es')).map .modelMap := by
  simp only [diffValue]
  split
  · next hshared =>
    obtain rfl := eq_of_identicalEntries (fun e _ t => eq_of_identical) hshared.2
    rw [(between_eq_nil_iff hes hes hentries fun e he =>
      diffsExactly_of_conforms (hentries e he).1 (hentries e he).2).2 rfl]
    rfl
  · rfl

/-! ### Only the content of the current version counts -/

theorem has_bareEntries (k : Key) (es : Keyed Snapshot) :
    Keyed.has k (bareEntries es) = Keyed.has k es := by
  simp [Keyed.has, find?_bareEntries]

theorem teardownValue_bareValue {kind : FieldKind} {v : Value Snapshot}
    (hv : ValueConforms models kind v)
    (ih : ∀ s ∈ v.records, s.Conforms models → s.bare.teardown = s.teardown) :
    teardownValue kind (bareValue v) = teardownValue kind v := by
  cases kind with
  | nested m =>
      obtain ⟨s, rfl, hs⟩ := valueConforms_nested.1 hv
      cases s with
      | none => rw [bareValue]
      | some s =>
          have hbare := ih s (by simp [Value.records]) (hs s rfl).2
          rw [bareValue, teardownValue, teardownValue, hbare]
  | modelMap k m =>
      obtain ⟨o, es, rfl, -, hentries⟩ := valueConforms_modelMap.1 hv
      have hes : teardownEntries (bareEntries es) = teardownEntries es := by
        rw [teardownEntries_eq_filterMap, teardownEntries_eq_filterMap, bareEntries_eq_map,
          List.filterMap_map]
        refine List.filterMap_congr fun e he => ?_
        simp [entryTeardown?, ih e.2 (List.mem_map_of_mem he) (hentries e he).2]
      simp [bareValue, teardownValue, hes]
  | _ => cases v <;> simp_all [bareValue, teardownValue, ValueConforms]

theorem teardown_bare {s : Snapshot} (hs : s.Conforms models) : s.bare.teardown = s.teardown := by
  induction s using Snapshot.induction with
  | step s ih =>
      have hkinds : List.Forall₂ Eq s.layout.kinds s.layout.kinds :=
        List.forall₂_same.2 fun _ _ => rfl
      have hvalues : List.zipWith teardownValue s.layout.kinds s.fields =
          List.zipWith teardownValue s.layout.kinds (s.fields.map bareValue) := by
        refine zipWith_eq_zipWith_map hkinds (conforms_iff.1 hs) ?_
        rintro kind _ v - hv rfl hconforms
        exact (teardownValue_bareValue hconforms (ih v hv)).symm
      rw [teardown_eq, teardown_eq, layout_bare, key_bare, fields_bare, hvalues]

/-- The difference to a record does not depend on where its parts were put together. -/
def DiffsByContent (models : String → Layout) (s : Snapshot) : Prop :=
  ∀ intent base, IsBase models s.layout base → s.bare.diffFrom intent base = s.diffFrom intent base

theorem recordChange?_bare {r s : Option Snapshot}
    (hr : ∀ t ∈ r, t.Conforms models ∧ t.isPlain = true)
    (hs : ∀ t ∈ s, t.DiffsByContent models) :
    recordChange? r (s.map bare) = recordChange? r s := by
  cases s with
  | none => rfl
  | some s =>
      have hadd := hs s rfl .add s.layout.zeros (isBase_zeros s.layout)
      cases r with
      | none => simp [recordChange?, hadd]
      | some r =>
          obtain ⟨hconforms, hplain⟩ := hr r rfl
          by_cases hidentity : r.identity = s.identity
          · have hlayout : r.layout = s.layout := congrArg Identity.layout hidentity
            have hupdate := hs s rfl .update r.fields (isBase_fields hconforms hplain hlayout)
            simp [recordChange?, hidentity, hupdate]
          · simp [recordChange?, hidentity, hadd]

theorem between_bareEntries {es es' : Keyed Snapshot} (hes : Keyed.Ascending es)
    (hentries : ∀ e ∈ es, e.2.Conforms models ∧ e.2.isPlain = true)
    (ih : ∀ e ∈ es', e.2.DiffsByContent models) :
    RecordEntryChange.between es (bareEntries es') = RecordEntryChange.between es es' := by
  have hreference : ∀ k r, Keyed.find? k es = some r → r.Conforms models ∧ r.isPlain = true :=
    fun k r hr => hentries (k, r) ((Keyed.mem_iff_find? hes k r).2 hr)
  have hthere : (bareEntries es').filterMap (entryDiff? es) = es'.filterMap (entryDiff? es) := by
    rw [bareEntries_eq_map, List.filterMap_map]
    refine List.filterMap_congr fun e he => ?_
    have hbare : recordChange? (Keyed.find? e.1 es) (some e.2.bare) =
        recordChange? (Keyed.find? e.1 es) (some e.2) :=
      recordChange?_bare (s := some e.2) (hreference e.1) fun t ht => by cases ht; exact ih e he
    have hintent : entryIntent (Keyed.find? e.1 es) (some e.2.bare) =
        entryIntent (Keyed.find? e.1 es) (some e.2) := by
      cases Keyed.find? e.1 es <;> rfl
    have hleft := @entryDiff?_eq models es (e.1, e.2.bare) (hreference e.1)
    have hright := @entryDiff?_eq models es e (hreference e.1)
    rw [Function.comp_apply, hleft, hright, hbare, hintent]
  rw [between_eq_append, between_eq_append, hthere]
  simp only [has_bareEntries]

theorem diffValue_bareValue {kind : FieldKind} {r v : Value Snapshot}
    (hr : ValueConforms models kind r) (hv : ValueConforms models kind v)
    (hplain : plainValue r = true)
    (ih : ∀ s ∈ v.records, s.Conforms models → s.DiffsByContent models) :
    diffValue r (bareValue v) = diffValue r v := by
  cases kind with
  | scalar t =>
      obtain ⟨y, rfl, -⟩ := valueConforms_scalar.1 hv
      rw [bareValue]
  | attached t =>
      obtain ⟨y, rfl, -⟩ := valueConforms_attached.1 hv
      rw [bareValue]
  | nested m =>
      obtain ⟨r, rfl, hrecord⟩ := valueConforms_nested.1 hr
      obtain ⟨s, rfl, hs⟩ := valueConforms_nested.1 hv
      have hall : ∀ t ∈ r, t.Conforms models ∧ t.isPlain = true :=
        fun t ht => ⟨(hrecord t ht).2, plainValue_nested.1 hplain t ht⟩
      rw [bareValue_nested, diffValue_nested hall, diffValue_nested hall,
        recordChange?_bare hall fun t ht =>
          ih t (by simpa [Value.records] using ht) (hs t ht).2]
  | keySet k =>
      obtain ⟨o, ms, rfl, hms⟩ := valueConforms_keySet.1 hr
      obtain ⟨o', ms', rfl, -⟩ := valueConforms_keySet.1 hv
      rw [bareValue, diffValue_keySet hms, diffValue_keySet hms]
  | valueMap k t =>
      obtain ⟨o, es, rfl, hes, -⟩ := valueConforms_valueMap.1 hr
      obtain ⟨o', es', rfl, -, -⟩ := valueConforms_valueMap.1 hv
      simp only [plainValue, List.all_eq_true] at hplain
      rw [bareValue, diffValue_valueMap hes hplain, diffValue_valueMap hes hplain]
  | modelMap k m =>
      obtain ⟨o, es, rfl, hes, hentries⟩ := valueConforms_modelMap.1 hr
      obtain ⟨o', es', rfl, -, hentries'⟩ := valueConforms_modelMap.1 hv
      have hall : ∀ e ∈ es, e.2.Conforms models ∧ e.2.isPlain = true :=
        fun e he => ⟨(hentries e he).2, plainValue_modelMap.1 hplain e he⟩
      rw [bareValue, diffValue_modelMap hes hall, diffValue_modelMap hes hall,
        between_bareEntries hes hall fun e he =>
          ih e.2 (List.mem_map_of_mem he) (hentries' e he).2]

theorem diffsByContent_of_conforms {s : Snapshot} (hs : s.Conforms models) :
    s.DiffsByContent models := by
  induction s using Snapshot.induction with
  | step s ih =>
      intro intent base hbase
      have hvalues := zipWith_eq_zipWith_map (f := diffValue) hbase.conforms (conforms_iff.1 hs)
        fun kind r v hr hv hrc hvc =>
          (diffValue_bareValue hrc hvc (hbase.plain r hr) (ih v hv)).symm
      rw [diffFrom_eq, diffFrom_eq, layout_bare, key_bare, fields_bare, hvalues]

end Snapshot

end VersionedRecords
