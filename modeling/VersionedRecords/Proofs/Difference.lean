import VersionedRecords.Proofs.Canonical
import VersionedRecords.Proofs.Conformity
import VersionedRecords.Record.Diff

/-!
What a comparison of snapshots finds.

On conforming snapshots every comparison gives a canonical change of the right record.  On plain
ones there is none to report exactly if the contents are equal.
-/

namespace VersionedRecords

namespace Accumulator

theorem of_gather_eq_some {layout : Layout} {intent : Intent} {key : Key}
    {ps : List (Option (Payload Change))} {c : Change} (h : gather layout intent key ps = some c) :
    c.identity = ⟨layout, key⟩ ∧ c.intent = intent := by
  simp only [gather, start, build, IntentState.start] at h
  obtain ⟨-, h⟩ := Option.ite_none_left_eq_some.1 h
  cases h
  exact ⟨rfl, rfl⟩

theorem intent_of_gather_eq_none {layout : Layout} {intent : Intent} {key : Key}
    {ps : List (Option (Payload Change))} (h : gather layout intent key ps = none) :
    intent = .update := by
  by_contra hintent
  simp [gather, start, build, IntentState.start, hintent] at h

theorem gather_isSome {layout : Layout} {intent : Intent} {key : Key}
    {ps : List (Option (Payload Change))} (hintent : intent ≠ .update) :
    (gather layout intent key ps).isSome = true :=
  Option.isSome_iff_ne_none.2 fun h => hintent (intent_of_gather_eq_none h)

end Accumulator

namespace Snapshot

variable {models : String → Layout}

/-! ### Deletions -/

theorem teardownFields_eq_zipWith (kinds : List FieldKind) (fs : List (Value Snapshot)) :
    teardownFields kinds fs = List.zipWith teardownValue kinds fs := by
  induction kinds generalizing fs with
  | nil => simp [teardownFields]
  | cons kind kinds ih => cases fs <;> simp [teardownFields, ih]

theorem teardown_eq (s : Snapshot) :
    s.teardown =
      Accumulator.gather s.layout .delete s.key
        (List.zipWith teardownValue s.layout.kinds s.fields) := by
  obtain ⟨layout, key, origin, fields⟩ := s
  rw [teardown, teardownFields_eq_zipWith]

/-- The deletion of an entry of a map. -/
def entryTeardown? (e : Key × Snapshot) : Option (RecordEntryChange Change) :=
  e.2.teardown.map (⟨.delete, e.1, ·⟩)

theorem teardownEntries_eq_filterMap (es : List (Key × Snapshot)) :
    teardownEntries es = es.filterMap entryTeardown? := by
  induction es with
  | nil => simp [teardownEntries]
  | cons e es ih =>
      obtain ⟨k, s⟩ := e
      cases hs : s.teardown with
      | none => simp [teardownEntries, entryTeardown?, hs, ih]
      | some c => simp [teardownEntries, entryTeardown?, hs, ih]

theorem key_of_entryTeardown? (e : Key × Snapshot) (c : RecordEntryChange Change)
    (h : entryTeardown? e = some c) : c.key = e.1 := by
  obtain ⟨d, -, rfl⟩ := Option.map_eq_some_iff.1 h
  rfl

/-- The change deletes the record. -/
structure IsTeardown (s : Snapshot) (c : Change) : Prop where
  identity : c.identity = s.identity
  intent : c.intent = .delete
  canonical : c.Canonical

theorem proper_teardownValue {kind : FieldKind} {v : Value Snapshot}
    (hv : ValueConforms models kind v)
    (ih : ∀ s ∈ v.records, s.Conforms models → ∃ c, s.teardown = some c ∧ s.IsTeardown c) :
    ∀ p ∈ teardownValue kind v, p.Proper kind := by
  intro p hp
  cases kind with
  | scalar t =>
      obtain ⟨x, rfl, -⟩ := valueConforms_scalar.1 hv
      simp only [teardownValue] at hp
      split at hp <;> cases hp
      trivial
  | attached t =>
      obtain ⟨x, rfl, -⟩ := valueConforms_attached.1 hv
      simp only [teardownValue] at hp
      split at hp <;> cases hp
      trivial
  | nested m =>
      obtain ⟨s, rfl, hs⟩ := valueConforms_nested.1 hv
      cases s with
      | none => simp [teardownValue] at hp
      | some s =>
          obtain ⟨c, hc, hteardown⟩ := ih s (by simp [Value.records]) (hs s rfl).2
          simp only [teardownValue, hc, Option.map_some, Option.mem_some_iff] at hp
          subst hp
          exact hteardown.canonical
  | keySet k =>
      obtain ⟨o, ms, rfl, hms⟩ := valueConforms_keySet.1 hv
      have htable := MemberChange.tabulates_between hms (List.Pairwise.nil (R := _))
      rw [teardownValue] at hp
      obtain ⟨cs, hcs, rfl⟩ := Option.map_eq_some_iff.1 hp
      obtain ⟨hne, rfl⟩ := nonEmpty?_eq_some_iff.1 hcs
      exact ⟨hne, htable.nodup⟩
  | valueMap k t =>
      obtain ⟨o, es, rfl, hes, -⟩ := valueConforms_valueMap.1 hv
      have htable := EntryChange.tabulates_between hes List.Pairwise.nil
      rw [teardownValue] at hp
      obtain ⟨cs, hcs, rfl⟩ := Option.map_eq_some_iff.1 hp
      obtain ⟨hne, rfl⟩ := nonEmpty?_eq_some_iff.1 hcs
      exact ⟨hne, htable.nodup⟩
  | modelMap k m =>
      obtain ⟨o, es, rfl, hes, hentries⟩ := valueConforms_modelMap.1 hv
      have htable := (Keyed.tabulates_of_ascending hes).filterMap
        fun e _ => key_of_entryTeardown? e
      rw [teardownValue, teardownEntries_eq_filterMap] at hp
      obtain ⟨cs, hcs, rfl⟩ := Option.map_eq_some_iff.1 hp
      obtain ⟨hne, rfl⟩ := nonEmpty?_eq_some_iff.1 hcs
      refine ⟨hne, htable.nodup, ?_⟩
      intro c hc
      obtain ⟨e, he, hec⟩ := List.mem_filterMap.1 hc
      obtain ⟨d, hd, rfl⟩ := Option.map_eq_some_iff.1 hec
      obtain ⟨d', hd', hteardown⟩ := ih e.2 (List.mem_map_of_mem he) (hentries e he).2
      rw [hd] at hd'
      cases hd'
      exact hteardown.canonical

theorem proper_teardownFields {s : Snapshot} (hs : s.Conforms models)
    (ih : ∀ v ∈ s.fields, ∀ t ∈ v.records, t.Conforms models →
      ∃ c, t.teardown = some c ∧ t.IsTeardown c) :
    Accumulator.ProperFields s.layout.kinds
      (List.zipWith teardownValue s.layout.kinds s.fields) := by
  refine forall₂_zipWith (List.forall₂_same.2 fun _ _ => rfl) (conforms_iff.1 hs) ?_
  rintro kind _ v - hv rfl hconforms
  exact proper_teardownValue hconforms (ih v hv)

theorem of_teardown {s : Snapshot} {c : Change} (hc : s.teardown = some c) :
    c.identity = s.identity ∧ c.intent = .delete := by
  rw [teardown_eq] at hc
  exact Accumulator.of_gather_eq_some hc

theorem teardown_isSome (s : Snapshot) : s.teardown.isSome = true := by
  rw [teardown_eq]
  exact Accumulator.gather_isSome (by decide)

/-- Every record can be deleted. -/
theorem exists_teardown {s : Snapshot} (hs : s.Conforms models) :
    ∃ c, s.teardown = some c ∧ s.IsTeardown c := by
  induction s using Snapshot.induction with
  | step s ih =>
      have hproper := proper_teardownFields hs ih
      obtain ⟨c, hc⟩ := Option.isSome_iff_exists.1 s.teardown_isSome
      obtain ⟨hidentity, hintent⟩ := of_teardown hc
      refine ⟨c, hc, hidentity, hintent, ?_⟩
      rw [teardown_eq] at hc
      exact Accumulator.canonical_of_gather hproper hc

/-! ### Differences are proper -/

theorem diffFields_eq_zipWith (base fs : List (Value Snapshot)) :
    diffFields base fs = List.zipWith diffValue base fs := by
  induction base generalizing fs with
  | nil => simp [diffFields]
  | cons r base ih => cases fs <;> simp [diffFields, ih]

theorem diffFrom_eq (intent : Intent) (base : List (Value Snapshot)) (s : Snapshot) :
    s.diffFrom intent base =
      Accumulator.gather s.layout intent s.key (List.zipWith diffValue base s.fields) := by
  obtain ⟨layout, key, origin, fields⟩ := s
  rw [diffFrom, diffFields_eq_zipWith]

theorem of_diffFrom {s : Snapshot} {intent : Intent} {base : List (Value Snapshot)} {c : Change}
    (hc : s.diffFrom intent base = some c) : c.identity = s.identity ∧ c.intent = intent := by
  rw [diffFrom_eq] at hc
  exact Accumulator.of_gather_eq_some hc

/-- What leads from an optional sub-record to one that is there; what is shared has not changed. -/
def changeFrom? (r : Option Snapshot) (s : Snapshot) : Option Change :=
  match r with
  | none => s.diffFrom .add s.layout.zeros
  | some r =>
    if r.isShared s then none
    else if r.identity = s.identity then s.diffFrom .update r.fields
    else s.diffFrom .add s.layout.zeros

theorem diffValue_nested_some (r : Option Snapshot) (s : Snapshot) :
    diffValue (.nested r) (.nested (some s)) = (changeFrom? r s).map .nested := by
  cases r with
  | none => rw [diffValue, changeFrom?]
  | some r =>
      simp only [diffValue, changeFrom?]
      split
      · rfl
      · split <;> rfl

/-- What the change of an entry does to the entry. -/
def entryIntent : Option Snapshot → Option Snapshot → Intent
  | none, _ => .add
  | some _, some _ => .update
  | some _, none => .delete

/-- The change of one entry that is there, given the entries that were. -/
def entryDiff? (reference : Keyed Snapshot) (e : Key × Snapshot) :
    Option (RecordEntryChange Change) :=
  (changeFrom? (Keyed.find? e.1 reference) e.2).map
    (⟨entryIntent (Keyed.find? e.1 reference) (some e.2), e.1, ·⟩)

theorem diffEntries_cons (reference : Keyed Snapshot) (e : Key × Snapshot)
    (es : List (Key × Snapshot)) :
    diffEntries reference (e :: es) =
      (entryDiff? reference e).toList ++ diffEntries reference es := by
  obtain ⟨k, s⟩ := e
  rw [diffEntries, entryDiff?]
  cases Keyed.find? k reference with
  | none => cases hadd : s.diffFrom .add s.layout.zeros <;> simp [changeFrom?, entryIntent, hadd]
  | some r =>
      by_cases hshared : r.isShared s = true
      · simp [changeFrom?, hshared]
      · by_cases hidentity : r.identity = s.identity
        · cases hupdate : s.diffFrom .update r.fields <;>
            simp [changeFrom?, entryIntent, hshared, hidentity, hupdate]
        · cases hadd : s.diffFrom .add s.layout.zeros <;>
            simp [changeFrom?, entryIntent, hshared, hidentity, hadd]

theorem diffEntries_eq_filterMap (reference es : Keyed Snapshot) :
    diffEntries reference es = es.filterMap (entryDiff? reference) := by
  induction es with
  | nil => simp [diffEntries]
  | cons e es ih =>
      rw [diffEntries_cons, ih]
      cases hdiff : entryDiff? reference e <;> simp [hdiff]

theorem key_of_entryDiff? (reference : Keyed Snapshot) (e : Key × Snapshot)
    (c : RecordEntryChange Change) (h : entryDiff? reference e = some c) : c.key = e.1 := by
  obtain ⟨d, -, rfl⟩ := Option.map_eq_some_iff.1 h
  rfl

theorem canonical_of_entryTeardown? {e : Key × Snapshot} (he : e.2.Conforms models)
    {c : RecordEntryChange Change} (h : entryTeardown? e = some c) : c.change.Canonical := by
  obtain ⟨d, hd, rfl⟩ := Option.map_eq_some_iff.1 h
  obtain ⟨d', hd', hteardown⟩ := exists_teardown he
  rw [hd] at hd'
  cases hd'
  exact hteardown.canonical

/-- Whatever conforming values the record is compared with, what is found for its fields is proper.
-/
def DiffsProperly (models : String → Layout) (s : Snapshot) : Prop :=
  ∀ base, List.Forall₂ (ValueConforms models) s.layout.kinds base →
    Accumulator.ProperFields s.layout.kinds (List.zipWith diffValue base s.fields)

theorem DiffsProperly.canonical {s : Snapshot} (hs : s.DiffsProperly models)
    {base : List (Value Snapshot)}
    (hbase : List.Forall₂ (ValueConforms models) s.layout.kinds base) {intent : Intent}
    {c : Change} (hc : s.diffFrom intent base = some c) : c.Canonical := by
  rw [diffFrom_eq] at hc
  exact Accumulator.canonical_of_gather (hs base hbase) hc

theorem DiffsProperly.canonical_add {s : Snapshot} (hs : s.DiffsProperly models) {c : Change}
    (hc : s.diffFrom .add s.layout.zeros = some c) : c.Canonical :=
  hs.canonical (forall₂_conforms_zeros s.layout) hc

theorem DiffsProperly.canonical_update {r s : Snapshot} (hs : s.DiffsProperly models)
    (hr : r.Conforms models) (hidentity : r.identity = s.identity) {c : Change}
    (hc : s.diffFrom .update r.fields = some c) : c.Canonical := by
  have hlayout : r.layout = s.layout := congrArg Identity.layout hidentity
  exact hs.canonical (hlayout ▸ conforms_iff.1 hr) hc

theorem canonical_of_changeFrom? {r : Option Snapshot} (hr : ∀ t ∈ r, t.Conforms models)
    {s : Snapshot} (hs : s.DiffsProperly models) {c : Change} (hc : changeFrom? r s = some c) :
    c.Canonical := by
  cases r with
  | none => exact hs.canonical_add hc
  | some r =>
      simp only [changeFrom?] at hc
      split at hc
      · cases hc
      · split at hc
        · next hidentity => exact hs.canonical_update (hr r rfl) hidentity hc
        · exact hs.canonical_add hc

theorem between_eq_append (reference current : Keyed Snapshot) :
    RecordEntryChange.between reference current =
      (reference.filter fun e => !Keyed.has e.1 current).filterMap entryTeardown?
        ++ current.filterMap (entryDiff? reference) := by
  rw [RecordEntryChange.between, teardownEntries_eq_filterMap, diffEntries_eq_filterMap]

/-- What has become of one key between two maps to sub-records. -/
def entryOfKey? (reference current : Keyed Snapshot) (k : Key) :
    Option (RecordEntryChange Change) :=
  (Keyed.find? k current).elim
    ((Keyed.find? k reference).bind fun r => entryTeardown? (k, r))
    fun s => entryDiff? reference (k, s)

theorem tabulates_between {reference current : Keyed Snapshot}
    (hr : Keyed.Ascending reference) (hc : Keyed.Ascending current) :
    Keyed.Tabulates RecordEntryChange.key (entryOfKey? reference current)
      (RecordEntryChange.between reference current) := by
  rw [between_eq_append]
  exact Keyed.tabulates_append hr hc entryTeardown? (entryDiff? reference)
    (fun e _ => key_of_entryTeardown? e) fun e _ => key_of_entryDiff? reference e

theorem canonical_of_mem_between {reference current : Keyed Snapshot}
    (hr : Keyed.Ascending reference) (hreference : ∀ e ∈ reference, e.2.Conforms models)
    (hcurrent : ∀ e ∈ current, e.2.DiffsProperly models) {c : RecordEntryChange Change}
    (h : c ∈ RecordEntryChange.between reference current) : c.change.Canonical := by
  rw [between_eq_append, List.mem_append] at h
  rcases h with h | h
  · obtain ⟨e, he, hec⟩ := List.mem_filterMap.1 h
    exact canonical_of_entryTeardown? (hreference e (List.mem_filter.1 he).1) hec
  · obtain ⟨e, he, hec⟩ := List.mem_filterMap.1 h
    obtain ⟨d, hd, rfl⟩ := Option.map_eq_some_iff.1 hec
    refine canonical_of_changeFrom? ?_ (hcurrent e he) hd
    intro r hfind
    exact hreference (e.1, r) ((Keyed.mem_iff_find? hr e.1 r).2 hfind)

theorem proper_diffValue {kind : FieldKind} {r v : Value Snapshot}
    (hr : ValueConforms models kind r) (hv : ValueConforms models kind v)
    (ih : ∀ s ∈ v.records, s.Conforms models → s.DiffsProperly models) :
    ∀ p ∈ diffValue r v, p.Proper kind := by
  intro p hp
  cases kind with
  | scalar t =>
      obtain ⟨x, rfl, -⟩ := valueConforms_scalar.1 hr
      obtain ⟨y, rfl, -⟩ := valueConforms_scalar.1 hv
      simp only [diffValue] at hp
      split at hp <;> cases hp
      trivial
  | attached t =>
      obtain ⟨x, rfl, -⟩ := valueConforms_attached.1 hr
      obtain ⟨y, rfl, -⟩ := valueConforms_attached.1 hv
      simp only [diffValue] at hp
      split at hp <;> cases hp
      trivial
  | nested m =>
      obtain ⟨r, rfl, hrecord⟩ := valueConforms_nested.1 hr
      obtain ⟨s, rfl, hs⟩ := valueConforms_nested.1 hv
      cases s with
      | none =>
          cases r with
          | none => simp [diffValue] at hp
          | some r =>
              obtain ⟨c, hc, hteardown⟩ := exists_teardown (hrecord r rfl).2
              simp only [diffValue, hc, Option.map_some, Option.mem_some_iff] at hp
              subst hp
              exact hteardown.canonical
      | some s =>
          have hproper := ih s (by simp [Value.records]) (hs s rfl).2
          rw [diffValue_nested_some] at hp
          obtain ⟨c, hc, rfl⟩ := Option.map_eq_some_iff.1 hp
          exact canonical_of_changeFrom? (fun t ht => (hrecord t ht).2) hproper hc
  | keySet k =>
      obtain ⟨o, ms, rfl, hms⟩ := valueConforms_keySet.1 hr
      obtain ⟨o', ms', rfl, hms'⟩ := valueConforms_keySet.1 hv
      simp only [diffValue] at hp
      split at hp
      · cases hp
      · obtain ⟨cs, hcs, rfl⟩ := Option.map_eq_some_iff.1 hp
        obtain ⟨hne, rfl⟩ := nonEmpty?_eq_some_iff.1 hcs
        exact ⟨hne, (MemberChange.tabulates_between hms hms').nodup⟩
  | valueMap k t =>
      obtain ⟨o, es, rfl, hes, -⟩ := valueConforms_valueMap.1 hr
      obtain ⟨o', es', rfl, hes', -⟩ := valueConforms_valueMap.1 hv
      simp only [diffValue] at hp
      split at hp
      · cases hp
      · obtain ⟨cs, hcs, rfl⟩ := Option.map_eq_some_iff.1 hp
        obtain ⟨hne, rfl⟩ := nonEmpty?_eq_some_iff.1 hcs
        exact ⟨hne, (EntryChange.tabulates_between hes hes').nodup⟩
  | modelMap k m =>
      obtain ⟨o, es, rfl, hes, hentries⟩ := valueConforms_modelMap.1 hr
      obtain ⟨o', es', rfl, hes', hentries'⟩ := valueConforms_modelMap.1 hv
      simp only [diffValue] at hp
      split at hp
      · cases hp
      · obtain ⟨cs, hcs, rfl⟩ := Option.map_eq_some_iff.1 hp
        obtain ⟨hne, rfl⟩ := nonEmpty?_eq_some_iff.1 hcs
        refine ⟨hne, (tabulates_between hes hes').nodup, ?_⟩
        intro c hc
        refine canonical_of_mem_between hes (fun e he => (hentries e he).2) ?_ hc
        exact fun e he => ih e.2 (List.mem_map_of_mem he) (hentries' e he).2

/-- All that a comparison finds for the fields is proper. -/
theorem diffsProperly_of_conforms {s : Snapshot} (hs : s.Conforms models) :
    s.DiffsProperly models := by
  induction s using Snapshot.induction with
  | step s ih =>
      intro base hbase
      refine forall₂_zipWith hbase (conforms_iff.1 hs) ?_
      intro kind r v _ hv hr hconforms
      exact proper_diffValue hr hconforms (ih v hv)

/-! ### When there is nothing to report -/

theorem diffFrom_add_isSome (base : List (Value Snapshot)) (s : Snapshot) :
    (s.diffFrom .add base).isSome = true := by
  rw [diffFrom_eq]
  exact Accumulator.gather_isSome (by decide)

/-- The update of the record from plain base values is none exactly if these are its own values. -/
def DiffsExactly (models : String → Layout) (s : Snapshot) : Prop :=
  ∀ base, IsBase models s.layout base →
    (s.diffFrom .update base = none ↔ base.map bareValue = s.fields.map bareValue)

theorem DiffsExactly.update_eq_none_iff {r s : Snapshot} (hs : s.DiffsExactly models)
    (hr : r.Conforms models) (hplain : r.isPlain = true) (hidentity : r.identity = s.identity) :
    s.diffFrom .update r.fields = none ↔ r.bare = s.bare := by
  have hlayout : r.layout = s.layout := congrArg Identity.layout hidentity
  rw [hs r.fields (isBase_fields hr hplain hlayout), bare_eq_iff]
  simp [hidentity]

theorem changeFrom?_eq_none_iff {r : Option Snapshot}
    (hr : ∀ t ∈ r, t.Conforms models ∧ t.isPlain = true) {s : Snapshot}
    (hs : s.DiffsExactly models) : changeFrom? r s = none ↔ r.map bare = some s.bare := by
  have hadd : s.diffFrom .add s.layout.zeros ≠ none :=
    Option.isSome_iff_ne_none.1 (diffFrom_add_isSome s.layout.zeros s)
  cases r with
  | none => simp [changeFrom?, hadd]
  | some r =>
      obtain ⟨hconforms, hplain⟩ := hr r rfl
      by_cases hshared : r.isShared s = true
      · obtain rfl := eq_of_isShared hshared
        simp [changeFrom?, hshared]
      · by_cases hidentity : r.identity = s.identity
        · simp [changeFrom?, hshared, hidentity, hs.update_eq_none_iff hconforms hplain hidentity]
        · have hbare : r.bare ≠ s.bare := fun h => hidentity (bare_eq_iff.1 h).1
          simp [changeFrom?, hshared, hidentity, hadd, hbare]

theorem entryOfKey?_eq_none_iff {reference current : Keyed Snapshot} {k : Key}
    (hreference : ∀ r, Keyed.find? k reference = some r → r.Conforms models ∧ r.isPlain = true)
    (hcurrent : ∀ s, Keyed.find? k current = some s → s.DiffsExactly models) :
    entryOfKey? reference current k = none ↔
      (Keyed.find? k reference).map bare = (Keyed.find? k current).map bare := by
  unfold entryOfKey?
  cases hfind : Keyed.find? k current with
  | some s =>
      simpa [entryDiff?] using changeFrom?_eq_none_iff hreference (hcurrent s hfind)
  | none =>
      cases hr : Keyed.find? k reference with
      | none => simp
      | some r =>
          obtain ⟨c, hc, -⟩ := exists_teardown (hreference r hr).1
          simp [entryTeardown?, hc]

theorem between_eq_nil_iff {reference current : Keyed Snapshot}
    (hr : Keyed.Ascending reference) (hc : Keyed.Ascending current)
    (hreference : ∀ e ∈ reference, e.2.Conforms models ∧ e.2.isPlain = true)
    (hcurrent : ∀ e ∈ current, e.2.DiffsExactly models) :
    RecordEntryChange.between reference current = [] ↔
      bareEntries reference = bareEntries current := by
  have hkey : ∀ k, entryOfKey? reference current k = none ↔
      Keyed.find? k (bareEntries reference) = Keyed.find? k (bareEntries current) := by
    intro k
    rw [find?_bareEntries, find?_bareEntries]
    exact entryOfKey?_eq_none_iff
      (fun r h => hreference (k, r) ((Keyed.mem_iff_find? hr k r).2 h))
      fun s h => hcurrent (k, s) ((Keyed.mem_iff_find? hc k s).2 h)
  rw [(tabulates_between hr hc).eq_nil_iff]
  simp only [hkey]
  constructor
  · exact Keyed.ext_find? (ascending_bareEntries.2 hr) (ascending_bareEntries.2 hc)
  · intro h k
    rw [h]

theorem diffValue_eq_none_iff {kind : FieldKind} {r v : Value Snapshot}
    (hr : ValueConforms models kind r) (hv : ValueConforms models kind v)
    (hrp : plainValue r = true) (hvp : plainValue v = true)
    (ih : ∀ s ∈ v.records, s.Conforms models → s.DiffsExactly models) :
    diffValue r v = none ↔ bareValue r = bareValue v := by
  cases kind with
  | scalar t =>
      obtain ⟨x, rfl, -⟩ := valueConforms_scalar.1 hr
      obtain ⟨y, rfl, -⟩ := valueConforms_scalar.1 hv
      have hxy : x.same y = true ↔ x = y := Datum.same_iff_eq hrp hvp
      simp [diffValue, bareValue, hxy]
  | attached t =>
      obtain ⟨x, rfl, -⟩ := valueConforms_attached.1 hr
      obtain ⟨y, rfl, -⟩ := valueConforms_attached.1 hv
      have hxy : Datum.sameOption x y = true ↔ x = y := by
        apply Datum.sameOption_iff_eq
        · simpa [plainValue, Option.all_eq_true] using hrp
        · simpa [plainValue, Option.all_eq_true] using hvp
      simp [diffValue, bareValue, hxy]
  | nested m =>
      obtain ⟨r, rfl, hrecord⟩ := valueConforms_nested.1 hr
      obtain ⟨s, rfl, hs⟩ := valueConforms_nested.1 hv
      cases s with
      | none =>
          cases r with
          | none => simp [diffValue]
          | some r =>
              obtain ⟨c, hc, -⟩ := exists_teardown (hrecord r rfl).2
              simp [diffValue, bareValue, hc]
      | some s =>
          have hexact := ih s (by simp [Value.records]) (hs s rfl).2
          have hnone := changeFrom?_eq_none_iff
            (fun t ht => ⟨(hrecord t ht).2, plainValue_nested.1 hrp t ht⟩) hexact
          rw [diffValue_nested_some, Option.map_eq_none_iff, hnone, bareValue_nested,
            bareValue_nested, Value.nested.injEq, Option.map_some]
  | keySet k =>
      obtain ⟨o, ms, rfl, hms⟩ := valueConforms_keySet.1 hr
      obtain ⟨o', ms', rfl, hms'⟩ := valueConforms_keySet.1 hv
      have hnil := MemberChange.between_eq_nil_iff hms hms'
      simp only [diffValue, bareValue, nonEmpty?, List.isEmpty_iff, hnil]
      by_cases hsame : ms = ms' <;> simp [hsame]
  | valueMap k t =>
      obtain ⟨o, es, rfl, hes, -⟩ := valueConforms_valueMap.1 hr
      obtain ⟨o', es', rfl, hes', -⟩ := valueConforms_valueMap.1 hv
      simp only [plainValue, List.all_eq_true] at hrp hvp
      have hnil := EntryChange.between_eq_nil_iff hes hes' hrp hvp
      simp only [diffValue, bareValue, nonEmpty?, List.isEmpty_iff, hnil]
      by_cases hsame : es = es' <;> simp [hsame]
  | modelMap k m =>
      obtain ⟨o, es, rfl, hes, hentries⟩ := valueConforms_modelMap.1 hr
      obtain ⟨o', es', rfl, hes', hentries'⟩ := valueConforms_modelMap.1 hv
      simp only [plainValue] at hrp hvp
      have hnil := between_eq_nil_iff hes hes'
        (fun e he => ⟨(hentries e he).2, plainEntries_iff.1 hrp e he⟩)
        fun e he => ih e.2 (List.mem_map_of_mem he) (hentries' e he).2
      simp only [diffValue, bareValue, Value.modelMap.injEq, true_and]
      by_cases hshared : o = o' ∧ identicalEntries es es' = true
      · have hes : es = es' := eq_of_identicalEntries (fun e _ t => eq_of_identical) hshared.2
        rw [if_pos hshared, hes]
        simp
      · rw [if_neg hshared, ← hnil, Option.map_eq_none_iff, nonEmpty?_eq_none_iff,
          RecordEntryChange.between]

theorem diffsExactly_of_conforms {s : Snapshot} (hs : s.Conforms models)
    (hplain : s.isPlain = true) : s.DiffsExactly models := by
  induction s using Snapshot.induction with
  | step s ih =>
      intro base hbase
      have hproper := diffsProperly_of_conforms hs base hbase.conforms
      have hnone := any_zipWith_eq_false_iff (f := diffValue) (g := bareValue) hbase.conforms
        (conforms_iff.1 hs) fun kind r v hr hv hrc hvc =>
          diffValue_eq_none_iff hrc hvc (hbase.plain r hr) (isPlain_iff.1 hplain v hv)
            fun t ht htc => ih v hv t ht htc
              (isPlain_of_mem_records (isPlain_iff.1 hplain v hv) ht)
      rw [diffFrom_eq, Accumulator.gather_eq hproper, ← hnone]
      simp

end Snapshot

end VersionedRecords
