import VersionedRecords.Proofs.Application
import VersionedRecords.Proofs.Following
import VersionedRecords.Proofs.Sharing

/-!
What a comparison finds is a conforming change.

The changes that lead from one conforming version to another carry for every field what its kind
asks for.  So they can be applied wherever the record is kept.
-/

namespace VersionedRecords

variable {models : String → Layout}

theorem Accumulator.conforms_of_gather {layout : Layout} {ps : List (Option (Payload Change))}
    (hproper : ProperFields layout.kinds ps)
    (hps : List.Forall₂
      (fun kind p => ∀ q ∈ p, Change.PayloadConforms models kind (Payload.sorted q))
      layout.kinds ps)
    {intent : Intent} {key : Key} {c : Change} (hc : gather layout intent key ps = some c) :
    c.Conforms models := by
  rw [gather_eq hproper] at hc
  split at hc
  · cases hc
  · cases hc
    refine Change.conforms_iff.2 (List.forall₂_map_right_iff.2 (hps.imp ?_))
    intro kind p hp q hq
    obtain ⟨q', hq', rfl⟩ := Option.map_eq_some_iff.1 hq
    exact hp q' hq'

theorem EntryChange.fits_of_mem_sorted {t : DatumType} {reference current : Keyed Datum}
    (hr : Keyed.Ascending reference) (hc : Keyed.Ascending current)
    (hfits : ∀ e ∈ current, e.2.Fits t) {c : EntryChange}
    (hmem : c ∈ settle (collect (between reference current))) : ∀ w ∈ c.value, w.Fits t := by
  intro w hw
  have htable := tabulates_settle_collect (tabulates_between hr hc)
  have hfind := find?_of_ofKey? ((htable.mem_iff c.key c).2 ⟨hmem, rfl⟩) hw
  exact hfits (c.key, w) ((Keyed.mem_iff_find? hc c.key w).2 hfind)

namespace Snapshot

theorem layout_of_teardown {s : Snapshot} {c : Change} (hc : s.teardown = some c) :
    c.layout = s.layout :=
  congrArg Identity.layout (of_teardown hc).1

theorem layout_of_diffFrom {s : Snapshot} {intent : Intent} {base : List (Value Snapshot)}
    {c : Change} (hc : s.diffFrom intent base = some c) : c.layout = s.layout :=
  congrArg Identity.layout (of_diffFrom hc).1

/-! ### Deletions -/

theorem payloadConforms_teardownValue {kind : FieldKind} {v : Value Snapshot}
    (hv : ValueConforms models kind v)
    (ih : ∀ s ∈ v.records, s.Conforms models → ∀ c ∈ s.teardown, c.Conforms models) :
    ∀ p ∈ teardownValue kind v, Change.PayloadConforms models kind p.sorted := by
  intro p hp
  cases kind with
  | scalar t =>
      obtain ⟨x, rfl, -⟩ := valueConforms_scalar.1 hv
      rw [teardownValue] at hp
      split at hp <;> cases hp
      exact t.fits_zero
  | attached t =>
      obtain ⟨x, rfl, -⟩ := valueConforms_attached.1 hv
      rw [teardownValue] at hp
      split at hp <;> cases hp
      simp [Payload.sorted, Change.PayloadConforms]
  | nested m =>
      obtain ⟨s, rfl, hs⟩ := valueConforms_nested.1 hv
      cases s with
      | none => simp [teardownValue] at hp
      | some s =>
          obtain ⟨hlayout, hconforms⟩ := hs s rfl
          rw [teardownValue] at hp
          obtain ⟨c, hc, rfl⟩ := Option.map_eq_some_iff.1 hp
          exact ⟨(layout_of_teardown hc).trans hlayout,
            ih s (by simp [Value.records]) hconforms c hc⟩
  | keySet k =>
      obtain ⟨o, ms, rfl, -⟩ := valueConforms_keySet.1 hv
      rw [teardownValue] at hp
      obtain ⟨cs, -, rfl⟩ := Option.map_eq_some_iff.1 hp
      trivial
  | valueMap k t =>
      obtain ⟨o, es, rfl, hes, -⟩ := valueConforms_valueMap.1 hv
      rw [teardownValue] at hp
      obtain ⟨cs, hcs, rfl⟩ := Option.map_eq_some_iff.1 hp
      obtain ⟨-, rfl⟩ := nonEmpty?_eq_some_iff.1 hcs
      exact fun c hc => EntryChange.fits_of_mem_sorted hes List.Pairwise.nil (by simp) hc
  | modelMap k m =>
      obtain ⟨o, es, rfl, hes, hentries⟩ := valueConforms_modelMap.1 hv
      rw [teardownValue, teardownEntries_eq_filterMap] at hp
      obtain ⟨cs, hcs, rfl⟩ := Option.map_eq_some_iff.1 hp
      obtain ⟨-, rfl⟩ := nonEmpty?_eq_some_iff.1 hcs
      have hcanonical : ∀ c ∈ es.filterMap entryTeardown?, c.change.Canonical := by
        intro c hc
        obtain ⟨e, he, hec⟩ := List.mem_filterMap.1 hc
        exact canonical_of_entryTeardown? (hentries e he).2 hec
      have hnodup := ((Keyed.tabulates_of_ascending hes).filterMap
        fun e _ => key_of_entryTeardown? e).nodup
      refine Change.entriesConform_iff.2 ?_
      intro c hc
      rw [RecordEntryChange.mem_sorted_iff hnodup hcanonical] at hc
      obtain ⟨e, he, hec⟩ := List.mem_filterMap.1 hc
      obtain ⟨d, hd, rfl⟩ := Option.map_eq_some_iff.1 hec
      obtain ⟨hlayout, hconforms⟩ := hentries e he
      exact ⟨(layout_of_teardown hd).trans hlayout, ih e.2 (List.mem_map_of_mem he) hconforms d hd⟩

theorem conforms_teardown {s : Snapshot} (hs : s.Conforms models) {c : Change}
    (hc : s.teardown = some c) : c.Conforms models := by
  induction s using Snapshot.induction generalizing c with
  | step s ih =>
      have hproper := proper_teardownFields hs fun _ _ t _ ht => exists_teardown ht
      rw [teardown_eq] at hc
      refine Accumulator.conforms_of_gather hproper ?_ hc
      refine forall₂_zipWith (List.forall₂_same.2 fun _ _ => rfl) (conforms_iff.1 hs) ?_
      rintro kind _ v - hv rfl hconforms
      exact payloadConforms_teardownValue hconforms fun t ht htc c hc => ih v hv t ht htc hc

/-! ### What a comparison finds for a field -/

/-- Once sorted, what is found for two maps of sub-records is a table: under each key there is what
has become of the sub-record that has it. -/
theorem tabulates_sorted_between {m : String} {x y : Keyed Snapshot}
    (hx : FitsEntries models m x) (hy : FitsEntries models m y) :
    Keyed.Tabulates RecordEntryChange.key
      (fun k => (recordChange? (Keyed.find? k x) (Keyed.find? k y)).map
        (⟨entryIntent (Keyed.find? k x) (Keyed.find? k y), k, ·⟩))
      (RecordEntryChange.sorted (RecordEntryChange.between x y)) := by
  have hentry : entryOfKey? x y = fun k =>
      (recordChange? (Keyed.find? k x) (Keyed.find? k y)).map
        (⟨entryIntent (Keyed.find? k x) (Keyed.find? k y), k, ·⟩) :=
    funext fun k => entryOfKey?_eq fun t ht => (hx.find? k t ht).2
  rw [← hentry]
  refine RecordEntryChange.tabulates_sorted (tabulates_between hx.ascending hy.ascending) ?_
  intro c hc
  exact canonical_of_mem_between hx.ascending (fun e he => (hx.fits e he).2.1)
    (fun e he => diffsProperly_of_conforms (hy.fits e he).2.1) hc

theorem of_mem_sorted_between {m : String} {x y : Keyed Snapshot} (hx : FitsEntries models m x)
    (hy : FitsEntries models m y) {c : RecordEntryChange Change}
    (hc : c ∈ RecordEntryChange.sorted (RecordEntryChange.between x y)) :
    c.intent = entryIntent (Keyed.find? c.key x) (Keyed.find? c.key y) ∧
      recordChange? (Keyed.find? c.key x) (Keyed.find? c.key y) = some c.change := by
  have hfound := ((tabulates_sorted_between hx hy).mem_iff c.key c).2 ⟨hc, rfl⟩
  obtain ⟨d, hd, hcd⟩ := Option.map_eq_some_iff.1 hfound
  exact ⟨(congrArg RecordEntryChange.intent hcd).symm,
    hd.trans (congrArg (some ∘ RecordEntryChange.change) hcd)⟩

/-- For each kind of field: the two values, what is known of them, and what is found. -/
inductive Found (models : String → Layout) :
    FieldKind → Value Snapshot → Value Snapshot → Payload Change → Prop
  | scalar {t : DatumType} (x : Datum) {y : Datum} (hy : y.Fits t) :
      Found models (.scalar t) (.scalar x) (.scalar y) (.scalar y)
  | attached {t : DatumType} (x : Option Datum) {y : Option Datum} (hy : ∀ d ∈ y, d.Fits t) :
      Found models (.attached t) (.attached x) (.attached y) (.attached y)
  | nested {m : String} {x y : Option Snapshot} {c : Change} (hx : FitsField models m x)
      (hy : FitsField models m y) (hc : recordChange? x y = some c) :
      Found models (.nested m) (.nested x) (.nested y) (.nested c)
  | keySet {k : KeyType} (o o' : Origin) {x y : List Key} (hx : KeySet.Ascending x)
      (hy : KeySet.Ascending y) :
      Found models (.keySet k) (.keySet o x) (.keySet o' y) (.keySet (MemberChange.between x y))
  | valueMap {k : KeyType} {t : DatumType} (o o' : Origin) {x y : Keyed Datum}
      (hx : Keyed.Ascending x) (hy : Keyed.Ascending y) (hxp : ∀ e ∈ x, e.2.isPlain = true)
      (hyp : ∀ e ∈ y, e.2.isPlain = true) (hfits : ∀ e ∈ y, e.2.Fits t) :
      Found models (.valueMap k t) (.valueMap o x) (.valueMap o' y)
        (.valueMap (EntryChange.between x y))
  | modelMap {k : KeyType} {m : String} (o o' : Origin) {x y : Keyed Snapshot}
      (hx : FitsEntries models m x) (hy : FitsEntries models m y) :
      Found models (.modelMap k m) (.modelMap o x) (.modelMap o' y)
        (.modelMap (RecordEntryChange.between x y))

theorem found_of_mem_diffValue {kind : FieldKind} {r v : Value Snapshot}
    (hr : ValueConforms models kind r) (hv : ValueConforms models kind v)
    (hrp : plainValue r = true) (hvp : plainValue v = true) {p : Payload Change}
    (hp : p ∈ diffValue r v) : Found models kind r v p := by
  cases kind with
  | scalar t =>
      obtain ⟨x, rfl, -⟩ := valueConforms_scalar.1 hr
      obtain ⟨y, rfl, hy⟩ := valueConforms_scalar.1 hv
      rw [diffValue] at hp
      split at hp <;> cases hp
      exact .scalar x hy
  | attached t =>
      obtain ⟨x, rfl, -⟩ := valueConforms_attached.1 hr
      obtain ⟨y, rfl, hy⟩ := valueConforms_attached.1 hv
      rw [diffValue] at hp
      split at hp <;> cases hp
      exact .attached x hy
  | nested m =>
      obtain ⟨x, rfl, hx⟩ := valueConforms_nested.1 hr
      obtain ⟨y, rfl, hy⟩ := valueConforms_nested.1 hv
      have hxf := fitsField_of_conforms hx hrp
      rw [diffValue_nested fun t ht => (hxf t ht).2] at hp
      obtain ⟨c, hc, rfl⟩ := Option.map_eq_some_iff.1 hp
      exact .nested hxf (fitsField_of_conforms hy hvp) hc
  | keySet k =>
      obtain ⟨o, x, rfl, hx⟩ := valueConforms_keySet.1 hr
      obtain ⟨o', y, rfl, hy⟩ := valueConforms_keySet.1 hv
      rw [diffValue_keySet hx] at hp
      obtain ⟨cs, hcs, rfl⟩ := Option.map_eq_some_iff.1 hp
      obtain ⟨-, rfl⟩ := nonEmpty?_eq_some_iff.1 hcs
      exact .keySet o o' hx hy
  | valueMap k t =>
      obtain ⟨o, x, rfl, hx, -⟩ := valueConforms_valueMap.1 hr
      obtain ⟨o', y, rfl, hy, hfits⟩ := valueConforms_valueMap.1 hv
      simp only [plainValue, List.all_eq_true] at hrp hvp
      rw [diffValue_valueMap hx hrp] at hp
      obtain ⟨cs, hcs, rfl⟩ := Option.map_eq_some_iff.1 hp
      obtain ⟨-, rfl⟩ := nonEmpty?_eq_some_iff.1 hcs
      exact .valueMap o o' hx hy hrp hvp hfits
  | modelMap k m =>
      obtain ⟨o, x, rfl, hx, hxe⟩ := valueConforms_modelMap.1 hr
      obtain ⟨o', y, rfl, hy, hye⟩ := valueConforms_modelMap.1 hv
      rw [plainValue] at hrp hvp
      have hxf := fitsEntries_of_conforms hx hxe hrp
      rw [diffValue_modelMap hx fun e he => (hxf.fits e he).2] at hp
      obtain ⟨cs, hcs, rfl⟩ := Option.map_eq_some_iff.1 hp
      obtain ⟨-, rfl⟩ := nonEmpty?_eq_some_iff.1 hcs
      exact .modelMap o o' hxf (fitsEntries_of_conforms hy hye hvp)

/-! ### Differences -/

/-- The changes that lead to the record conform. -/
def FindsConforming (models : String → Layout) (t : Snapshot) : Prop :=
  ∀ intent base, IsBase models t.layout base → ∀ c ∈ t.diffFrom intent base, c.Conforms models

theorem conforms_recordChange? {m : String} {base current : Option Snapshot}
    (hbase : FitsField models m base) (hcurrent : FitsField models m current)
    (ih : ∀ t ∈ current, t.FindsConforming models) {c : Change}
    (hc : recordChange? base current = some c) : c.layout = models m ∧ c.Conforms models := by
  obtain ⟨r, rfl, rfl, hdelete⟩ | ⟨r, t, rfl, rfl, hidentity, hupdate⟩ | ⟨t, rfl, -, hadd⟩ :=
    recordChange?_cases hc
  · obtain ⟨hlayout, hconforms, -⟩ := hbase r rfl
    exact ⟨(layout_of_teardown hdelete).trans hlayout, conforms_teardown hconforms hdelete⟩
  · obtain ⟨-, hconforms, hplain⟩ := hbase r rfl
    have hrbase := isBase_fields hconforms hplain (congrArg Identity.layout hidentity)
    exact ⟨(layout_of_diffFrom hupdate).trans (hcurrent t rfl).1, ih t rfl _ _ hrbase c hupdate⟩
  · exact ⟨(layout_of_diffFrom hadd).trans (hcurrent t rfl).1,
      ih t rfl _ _ (isBase_zeros t.layout) c hadd⟩

theorem payloadConforms_diffValue {kind : FieldKind} {r v : Value Snapshot}
    (hr : ValueConforms models kind r) (hv : ValueConforms models kind v)
    (hrp : plainValue r = true) (hvp : plainValue v = true)
    (ih : ∀ t ∈ v.records, t.Conforms models → t.isPlain = true → t.FindsConforming models) :
    ∀ p ∈ diffValue r v, Change.PayloadConforms models kind p.sorted := by
  intro p hp
  cases found_of_mem_diffValue hr hv hrp hvp hp with
  | scalar _ hy => exact hy
  | attached _ hy => exact hy
  | nested hx hy hc =>
      refine conforms_recordChange? hx hy ?_ hc
      intro t ht
      exact ih t (by simpa [Value.records] using ht) (hy t ht).2.1 (hy t ht).2.2
  | keySet => trivial
  | valueMap _ _ hx hy _ _ hfits => exact fun c hc => EntryChange.fits_of_mem_sorted hx hy hfits hc
  | modelMap _ _ hx hy =>
      refine Change.entriesConform_iff.2 fun c hc => ?_
      obtain ⟨-, hchange⟩ := of_mem_sorted_between hx hy hc
      refine conforms_recordChange? (hx.find? c.key) (hy.find? c.key) ?_ hchange
      intro t ht
      have hmem := Keyed.mem_of_find? ht
      exact ih t (List.mem_map_of_mem hmem) (hy.fits _ hmem).2.1 (hy.fits _ hmem).2.2

/-- The changes that lead from conforming, plain values to a conforming, plain record conform. -/
theorem findsConforming_of_conforms {t : Snapshot} (ht : t.Conforms models)
    (hplain : t.isPlain = true) : t.FindsConforming models := by
  induction t using Snapshot.induction with
  | step t ih =>
      intro intent base hbase c hc
      rw [Option.mem_def, diffFrom_eq] at hc
      refine Accumulator.conforms_of_gather (diffsProperly_of_conforms ht base hbase.conforms) ?_ hc
      refine forall₂_zipWith hbase.conforms (conforms_iff.1 ht) ?_
      intro kind r v hr hv hrc hvc
      exact payloadConforms_diffValue hrc hvc (hbase.plain r hr) (isPlain_iff.1 hplain v hv)
        (ih v hv)

end Snapshot

end VersionedRecords
