import VersionedRecords.Proofs.Difference

/-!
Changes applied to another version than the one they were found against.

A change leads from a base to a record and is applied to what is stored by then.  It carries only
what the record has that the base has not, so the outcome is the record exactly if the stored
version follows it in all the rest: wherever record and base agree, the stored version agrees with
them.  Of a sub-record that is not stored any more, or has given way to another one, the change can
only bring back the fields that it carries.
-/

namespace VersionedRecords

namespace Snapshot

/-- The stored version of a given record, if it is that record that is stored. -/
def held (identity : Identity) (stored : Option Snapshot) : Option Snapshot :=
  stored.filter fun s => s.identity = identity

mutual

/-- The stored values agree with the record wherever the record agrees with the base. -/
def Follows (base stored : List (Value Snapshot)) : Snapshot → Prop
  | ⟨_, _, _, fields⟩ => FieldsFollow base stored fields

def FieldsFollow :
    List (Value Snapshot) → List (Value Snapshot) → List (Value Snapshot) → Prop
  | r :: rs, s :: ss, v :: vs => ValueFollows r s v ∧ FieldsFollow rs ss vs
  | _, _, _ => True

def ValueFollows : Value Snapshot → Value Snapshot → Value Snapshot → Prop
  | .scalar r, .scalar s, .scalar v => r = v → s = v
  | .attached r, .attached s, .attached v => r = v → s = v
  | .nested r, .nested s, .nested none => r = none → s = none
  | .nested r, .nested s, .nested (some v) => RecordFollows r s v
  | .keySet _ r, .keySet _ s, .keySet _ v => ∀ k, (k ∈ r ↔ k ∈ v) → (k ∈ s ↔ k ∈ v)
  | .valueMap _ r, .valueMap _ s, .valueMap _ v =>
    ∀ k, Keyed.find? k r = Keyed.find? k v → Keyed.find? k s = Keyed.find? k v
  | .modelMap _ r, .modelMap _ s, .modelMap _ v =>
    (∀ k, Keyed.find? k v = none → Keyed.find? k r = none → Keyed.find? k s = none) ∧
      EntriesFollow r s v
  | _, _, _ => True

/-- If the base has a version of the record, then what is stored is a version that follows, or the
record differs from the base and consists of what differs. -/
def RecordFollows (base stored : Option Snapshot) : Snapshot → Prop
  | ⟨layout, key, origin, fields⟩ =>
    ∀ r ∈ base, r.identity = ⟨layout, key⟩ →
      match held ⟨layout, key⟩ stored with
      | some s => FieldsFollow r.fields s.fields fields
      | none =>
        r.bare ≠ bare ⟨layout, key, origin, fields⟩ ∧ FieldsFollow r.fields layout.zeros fields

def EntriesFollow (base stored : List (Key × Snapshot)) : List (Key × Snapshot) → Prop
  | [] => True
  | (k, v) :: rest =>
    RecordFollows (Keyed.find? k base) (Keyed.find? k stored) v ∧ EntriesFollow base stored rest

end

theorem follows_iff {base stored : List (Value Snapshot)} {t : Snapshot} :
    t.Follows base stored ↔ FieldsFollow base stored t.fields := by
  obtain ⟨layout, key, origin, fields⟩ := t
  rw [Follows]

/-- What is stored is a version of the record that follows, or the record differs from the base and
consists of what differs. -/
def FollowsFrom (base : Snapshot) (stored : Option Snapshot) (t : Snapshot) : Prop :=
  match held t.identity stored with
  | some s => t.Follows base.fields s.fields
  | none => base.bare ≠ t.bare ∧ t.Follows base.fields t.layout.zeros

theorem recordFollows_iff {base stored : Option Snapshot} {t : Snapshot} :
    RecordFollows base stored t ↔
      ∀ r ∈ base, r.identity = t.identity → FollowsFrom r stored t := by
  obtain ⟨layout, key, origin, fields⟩ := t
  rw [RecordFollows]
  simp only [FollowsFrom, follows_iff]
  rfl

theorem recordFollows_some_iff {r t : Snapshot} {stored : Option Snapshot}
    (hidentity : r.identity = t.identity) :
    RecordFollows (some r) stored t ↔ FollowsFrom r stored t := by
  rw [recordFollows_iff]
  constructor
  · exact fun h => h r rfl hidentity
  · rintro h _ ⟨⟩ _
    exact h

theorem entriesFollow_iff {base stored es : List (Key × Snapshot)} :
    EntriesFollow base stored es ↔
      ∀ e ∈ es, RecordFollows (Keyed.find? e.1 base) (Keyed.find? e.1 stored) e.2 := by
  induction es with
  | nil => simp [EntriesFollow]
  | cons e es ih =>
      obtain ⟨k, v⟩ := e
      rw [EntriesFollow, ih, List.forall_mem_cons]

/-- The same of a sub-record that may be absent. -/
def OptionFollows (base stored : Option Snapshot) : Option Snapshot → Prop
  | none => base = none → stored = none
  | some t => RecordFollows base stored t

theorem valueFollows_nested {r s v : Option Snapshot} :
    ValueFollows (.nested r) (.nested s) (.nested v) ↔ OptionFollows r s v := by
  cases v <;> simp [ValueFollows, OptionFollows]

theorem valueFollows_modelMap {o o' o'' : Origin} {r s v : Keyed Snapshot}
    (hv : Keyed.Ascending v) :
    ValueFollows (.modelMap o r) (.modelMap o' s) (.modelMap o'' v) ↔
      ∀ k, OptionFollows (Keyed.find? k r) (Keyed.find? k s) (Keyed.find? k v) := by
  rw [ValueFollows, entriesFollow_iff]
  constructor
  · rintro ⟨habsent, hpresent⟩ k
    cases hk : Keyed.find? k v with
    | none => exact habsent k hk
    | some t => exact hpresent (k, t) ((Keyed.mem_iff_find? hv k t).2 hk)
  · intro h
    refine ⟨?_, ?_⟩
    · intro k hk
      have hfollows := h k
      rwa [hk] at hfollows
    · rintro ⟨k, t⟩ he
      have hfollows := h k
      rwa [(Keyed.mem_iff_find? hv k t).1 he] at hfollows

theorem held_eq_some_iff {identity : Identity} {stored : Option Snapshot} {s : Snapshot} :
    held identity stored = some s ↔ stored = some s ∧ s.identity = identity := by
  simp [held, Option.filter_eq_some_iff]

theorem held_eq_none_iff {identity : Identity} {stored : Option Snapshot} :
    held identity stored = none ↔ ∀ s ∈ stored, s.identity ≠ identity := by
  simp [held, Option.filter_eq_none_iff]

variable {models : String → Layout}

/-- Sub-records that conform, are plain and have the layout that a field names. -/
def FitsField (models : String → Layout) (m : String) (s : Option Snapshot) : Prop :=
  ∀ t ∈ s, t.layout = models m ∧ t.Conforms models ∧ t.isPlain = true

theorem fitsField_of_conforms {m : String} {s : Option Snapshot}
    (hs : ∀ t ∈ s, t.layout = models m ∧ t.Conforms models)
    (hplain : plainValue (.nested s) = true) : FitsField models m s :=
  fun t ht => ⟨(hs t ht).1, (hs t ht).2, plainValue_nested.1 hplain t ht⟩

theorem conforms_of_find? {m : String} {es : Keyed Snapshot} (hes : Keyed.Ascending es)
    (hconforms : ∀ e ∈ es, e.2.layout = models m ∧ e.2.Conforms models) (k : Key) :
    ∀ t ∈ Keyed.find? k es, t.Conforms models :=
  fun t ht => (hconforms (k, t) ((Keyed.mem_iff_find? hes k t).2 ht)).2

/-- The sub-records of a map, in the order of their keys. -/
structure FitsEntries (models : String → Layout) (m : String) (es : Keyed Snapshot) : Prop where
  ascending : Keyed.Ascending es
  fits : ∀ e ∈ es, e.2.layout = models m ∧ e.2.Conforms models ∧ e.2.isPlain = true

theorem fitsEntries_of_conforms {m : String} {es : Keyed Snapshot} (hes : Keyed.Ascending es)
    (hconforms : ∀ e ∈ es, e.2.layout = models m ∧ e.2.Conforms models)
    (hplain : plainEntries es = true) : FitsEntries models m es :=
  ⟨hes, fun e he => ⟨(hconforms e he).1, (hconforms e he).2, plainEntries_iff.1 hplain e he⟩⟩

theorem FitsEntries.find? {m : String} {es : Keyed Snapshot} (h : FitsEntries models m es)
    (k : Key) : FitsField models m (Keyed.find? k es) :=
  fun t ht => h.fits (k, t) (Keyed.mem_of_find? ht)

/-! ### Only the content of the stored version counts -/

theorem held_map_bare (identity : Identity) (stored : Option Snapshot) :
    held identity (stored.map bare) = (held identity stored).map bare := by
  cases stored with
  | none => rfl
  | some s => by_cases hs : s.identity = identity <;> simp [held, Option.filter, hs]

/-- Where the stored values were put together does not matter. -/
def FollowedByContent (models : String → Layout) (t : Snapshot) : Prop :=
  ∀ base stored, List.Forall₂ (ValueConforms models) t.layout.kinds base →
    List.Forall₂ (ValueConforms models) t.layout.kinds stored →
    (t.Follows base (stored.map bareValue) ↔ t.Follows base stored)

theorem optionFollows_map_bare {base stored current : Option Snapshot}
    (hbase : ∀ r ∈ base, r.Conforms models) (hstored : ∀ s ∈ stored, s.Conforms models)
    (ih : ∀ t ∈ current, t.FollowedByContent models) :
    OptionFollows base (stored.map bare) current ↔ OptionFollows base stored current := by
  cases current with
  | none => simp [OptionFollows]
  | some t =>
      rw [OptionFollows, OptionFollows, recordFollows_iff, recordFollows_iff]
      refine forall₂_congr fun r hr => imp_congr_right fun hidentity => ?_
      unfold FollowsFrom
      rw [held_map_bare]
      cases hheld : held t.identity stored with
      | none => rfl
      | some s =>
          obtain ⟨hs, hsidentity⟩ := held_eq_some_iff.1 hheld
          have hrlayout : r.layout = t.layout := congrArg Identity.layout hidentity
          have hslayout : s.layout = t.layout := congrArg Identity.layout hsidentity
          have hcontent := ih t rfl r.fields s.fields (hrlayout ▸ conforms_iff.1 (hbase r hr))
            (hslayout ▸ conforms_iff.1 (hstored s hs))
          rw [← fields_bare] at hcontent
          exact hcontent

theorem valueFollows_bareValue {kind : FieldKind} {r s v : Value Snapshot}
    (hr : ValueConforms models kind r) (hs : ValueConforms models kind s)
    (hv : ValueConforms models kind v)
    (ih : ∀ t ∈ v.records, t.Conforms models → t.FollowedByContent models) :
    ValueFollows r (bareValue s) v ↔ ValueFollows r s v := by
  cases kind with
  | nested m =>
      obtain ⟨x, rfl, hx⟩ := valueConforms_nested.1 hr
      obtain ⟨y, rfl, hy⟩ := valueConforms_nested.1 hs
      obtain ⟨z, rfl, hz⟩ := valueConforms_nested.1 hv
      rw [bareValue_nested, valueFollows_nested, valueFollows_nested]
      refine optionFollows_map_bare (fun r hr => (hx r hr).2) (fun s hs => (hy s hs).2) ?_
      exact fun t ht => ih t (by simpa [Value.records] using ht) (hz t ht).2
  | modelMap k m =>
      obtain ⟨o, x, rfl, hx, hxe⟩ := valueConforms_modelMap.1 hr
      obtain ⟨o', y, rfl, hy, hye⟩ := valueConforms_modelMap.1 hs
      obtain ⟨o'', z, rfl, hz, hze⟩ := valueConforms_modelMap.1 hv
      rw [bareValue, valueFollows_modelMap hz, valueFollows_modelMap hz]
      refine forall_congr' fun k => ?_
      rw [find?_bareEntries]
      refine optionFollows_map_bare (conforms_of_find? hx hxe k) (conforms_of_find? hy hye k) ?_
      intro t ht
      have hmem := (Keyed.mem_iff_find? hz k t).2 ht
      exact ih t (List.mem_map_of_mem hmem) (hze _ hmem).2
  | scalar t =>
      obtain ⟨y, rfl, -⟩ := valueConforms_scalar.1 hs
      rw [bareValue]
  | attached t =>
      obtain ⟨y, rfl, -⟩ := valueConforms_attached.1 hs
      rw [bareValue]
  | keySet k =>
      obtain ⟨o, x, rfl, -⟩ := valueConforms_keySet.1 hr
      obtain ⟨o', y, rfl, -⟩ := valueConforms_keySet.1 hs
      obtain ⟨o'', z, rfl, -⟩ := valueConforms_keySet.1 hv
      rw [bareValue, ValueFollows, ValueFollows]
  | valueMap k t =>
      obtain ⟨o, x, rfl, -⟩ := valueConforms_valueMap.1 hr
      obtain ⟨o', y, rfl, -⟩ := valueConforms_valueMap.1 hs
      obtain ⟨o'', z, rfl, -⟩ := valueConforms_valueMap.1 hv
      rw [bareValue, ValueFollows, ValueFollows]

theorem fieldsFollow_map_bareValue {kinds : List FieldKind} {rs ss vs : List (Value Snapshot)}
    (hrs : List.Forall₂ (ValueConforms models) kinds rs)
    (hss : List.Forall₂ (ValueConforms models) kinds ss)
    (hvs : List.Forall₂ (ValueConforms models) kinds vs)
    (ih : ∀ v ∈ vs, ∀ t ∈ v.records, t.Conforms models → t.FollowedByContent models) :
    FieldsFollow rs (ss.map bareValue) vs ↔ FieldsFollow rs ss vs := by
  induction hrs generalizing ss vs with
  | nil =>
      cases hss
      rfl
  | @cons kind r kinds rs hr hrs ihrs =>
      cases hss with
      | @cons _ s _ ss hs hss =>
          cases hvs with
          | @cons _ v _ vs hv hvs =>
              rw [List.forall_mem_cons] at ih
              rw [List.map_cons, FieldsFollow, FieldsFollow, valueFollows_bareValue hr hs hv ih.1,
                ihrs hss hvs ih.2]

theorem followedByContent_of_conforms {t : Snapshot} (ht : t.Conforms models) :
    t.FollowedByContent models := by
  induction t using Snapshot.induction with
  | step t ih =>
      intro base stored hbase hstored
      rw [follows_iff, follows_iff]
      exact fieldsFollow_map_bareValue hbase hstored (conforms_iff.1 ht) ih

/-! ### A stored version with the content of the base -/

theorem optionFollows_self {base current : Option Snapshot} (hbase : ∀ r ∈ base, r.Conforms models)
    (ih : ∀ t ∈ current, ∀ base, List.Forall₂ (ValueConforms models) t.layout.kinds base →
      t.Follows base base) : OptionFollows base base current := by
  cases current with
  | none => exact id
  | some t =>
      refine recordFollows_iff.2 fun r hr hidentity => ?_
      have hheld : held t.identity base = some r := held_eq_some_iff.2 ⟨hr, hidentity⟩
      have hlayout : r.layout = t.layout := congrArg Identity.layout hidentity
      rw [FollowsFrom, hheld]
      exact ih t rfl r.fields (hlayout ▸ conforms_iff.1 (hbase r hr))

theorem valueFollows_self {kind : FieldKind} {r v : Value Snapshot}
    (hr : ValueConforms models kind r) (hv : ValueConforms models kind v)
    (ih : ∀ t ∈ v.records, t.Conforms models → ∀ base,
      List.Forall₂ (ValueConforms models) t.layout.kinds base → t.Follows base base) :
    ValueFollows r r v := by
  cases kind with
  | nested m =>
      obtain ⟨x, rfl, hx⟩ := valueConforms_nested.1 hr
      obtain ⟨z, rfl, hz⟩ := valueConforms_nested.1 hv
      refine valueFollows_nested.2 (optionFollows_self (fun r hr => (hx r hr).2) ?_)
      exact fun t ht => ih t (by simpa [Value.records] using ht) (hz t ht).2
  | modelMap k m =>
      obtain ⟨o, x, rfl, hx, hxe⟩ := valueConforms_modelMap.1 hr
      obtain ⟨o', z, rfl, hz, hze⟩ := valueConforms_modelMap.1 hv
      refine (valueFollows_modelMap hz).2 fun k =>
        optionFollows_self (conforms_of_find? hx hxe k) ?_
      intro t ht
      have hmem := (Keyed.mem_iff_find? hz k t).2 ht
      exact ih t (List.mem_map_of_mem hmem) (hze _ hmem).2
  | scalar t =>
      obtain ⟨x, rfl, -⟩ := valueConforms_scalar.1 hr
      obtain ⟨z, rfl, -⟩ := valueConforms_scalar.1 hv
      rw [ValueFollows]
      exact id
  | attached t =>
      obtain ⟨x, rfl, -⟩ := valueConforms_attached.1 hr
      obtain ⟨z, rfl, -⟩ := valueConforms_attached.1 hv
      rw [ValueFollows]
      exact id
  | keySet k =>
      obtain ⟨o, x, rfl, -⟩ := valueConforms_keySet.1 hr
      obtain ⟨o', z, rfl, -⟩ := valueConforms_keySet.1 hv
      rw [ValueFollows]
      exact fun _ => id
  | valueMap k t =>
      obtain ⟨o, x, rfl, -⟩ := valueConforms_valueMap.1 hr
      obtain ⟨o', z, rfl, -⟩ := valueConforms_valueMap.1 hv
      rw [ValueFollows]
      exact fun _ => id

theorem fieldsFollow_self {kinds : List FieldKind} {rs vs : List (Value Snapshot)}
    (hrs : List.Forall₂ (ValueConforms models) kinds rs)
    (hvs : List.Forall₂ (ValueConforms models) kinds vs)
    (ih : ∀ v ∈ vs, ∀ t ∈ v.records, t.Conforms models → ∀ base,
      List.Forall₂ (ValueConforms models) t.layout.kinds base → t.Follows base base) :
    FieldsFollow rs rs vs := by
  induction hrs generalizing vs with
  | nil =>
      cases hvs
      simp [FieldsFollow]
  | @cons kind r kinds rs hr hrs ihrs =>
      cases hvs with
      | @cons _ v _ vs hv hvs =>
          rw [List.forall_mem_cons] at ih
          rw [FieldsFollow]
          exact ⟨valueFollows_self hr hv ih.1, ihrs hvs ih.2⟩

theorem follows_self {t : Snapshot} (ht : t.Conforms models) {base : List (Value Snapshot)}
    (hbase : List.Forall₂ (ValueConforms models) t.layout.kinds base) : t.Follows base base := by
  induction t using Snapshot.induction generalizing base with
  | step t ih =>
      refine follows_iff.2 (fieldsFollow_self hbase (conforms_iff.1 ht) ?_)
      exact fun v hv t ht htc base hbase => ih v hv t ht htc hbase

/-- Stored values with the same content follow alike. -/
theorem follows_congr {t : Snapshot} (ht : t.Conforms models)
    {base stored stored' : List (Value Snapshot)}
    (hbase : List.Forall₂ (ValueConforms models) t.layout.kinds base)
    (hstored : List.Forall₂ (ValueConforms models) t.layout.kinds stored)
    (hstored' : List.Forall₂ (ValueConforms models) t.layout.kinds stored')
    (hsame : stored.map bareValue = stored'.map bareValue) :
    t.Follows base stored ↔ t.Follows base stored' := by
  have hcontent := followedByContent_of_conforms ht
  rw [← hcontent base stored hbase hstored, hsame, hcontent base stored' hbase hstored']

end Snapshot

end VersionedRecords
