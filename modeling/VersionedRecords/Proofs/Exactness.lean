import VersionedRecords.Proofs.DraftDifference
import VersionedRecords.Proofs.Patching

/-!
Differences are exact.

What a comparison of two versions carries for a field is determined by the two values of the field
alone: nothing if they are the same, and otherwise what has become of it.  For collections that is
one change for each key at which both sides differ, in ascending order of the keys, and for
sub-records the change that comparing the sub-records on their own gives.
-/

namespace VersionedRecords

/-- The list speaks about exactly the keys at which two collections differ, about each once and in
ascending order, and tells of each what has become of it. -/
structure Keyed.Lists {C : Type} (key : C → Key) (differs : Key → Prop) (tells : C → Prop)
    (cs : List C) : Prop where
  sorted : Sorted key cs
  mem_keys_iff : ∀ k, k ∈ cs.map key ↔ differs k
  tells : ∀ c ∈ cs, tells c

theorem Keyed.Tabulates.lists {C : Type} {key : C → Key} {f : Key → Option C} {cs : List C}
    (h : Tabulates key f cs) (hsorted : Sorted key cs) {differs : Key → Prop} {tells : C → Prop}
    (hdiffers : ∀ k, f k ≠ none ↔ differs k) (htells : ∀ k c, f k = some c → tells c) :
    Lists key differs tells cs where
  sorted := hsorted
  mem_keys_iff k := by
    rw [← hdiffers, Option.ne_none_iff_exists']
    simp only [h.mem_iff, List.mem_map]
  tells c hc := htells (key c) c ((h.mem_iff _ c).2 ⟨hc, rfl⟩)

/-- The change of the member says that it has left or that it has joined. -/
def MemberChange.Tells (reference current : List Key) (c : MemberChange) : Prop :=
  c.intent = .delete ∧ c.key ∈ reference ∧ c.key ∉ current ∨
    c.intent = .add ∧ c.key ∉ reference ∧ c.key ∈ current

/-- The change of the entry says that it is gone, or brings the value that it has now. -/
def EntryChange.Tells (reference current : Option Datum) (c : EntryChange) : Prop :=
  match reference, current with
  | some _, none => c.intent = .delete ∧ c.value = none
  | none, some v => c.intent = .add ∧ c.value = some v
  | some _, some v => c.intent = .update ∧ c.value = some v
  | none, none => False

/-- The change is the one that the sub-record gives on its own: its update if it is the same
sub-record on both sides, and else its creation or its deletion. -/
def Change.Tells (reference current : Option Snapshot) (c : Change) : Prop :=
  match reference, current with
  | some r, some s =>
    if r.identity = s.identity then s.edit.diffAgainst .update r = .ok (some c)
    else s.toChange .add = some c
  | none, some s => s.toChange .add = some c
  | some r, none => r.toChange .delete = some c
  | none, none => False

/-- What is carried for a field tells what has become of its value. -/
def Payload.Tells : Value Snapshot → Value Snapshot → Payload Change → Prop
  | .scalar _, .scalar v, .scalar w => w = v
  | .attached _, .attached v, .attached w => w = v
  | .nested r, .nested s, .nested c => c.Tells r s
  | .keySet _ ms, .keySet _ ms', .keySet cs =>
    Keyed.Lists MemberChange.key (fun k => ¬(k ∈ ms ↔ k ∈ ms')) (MemberChange.Tells ms ms') cs
  | .valueMap _ es, .valueMap _ es', .valueMap cs =>
    Keyed.Lists EntryChange.key
      (fun k => Datum.sameOption (Keyed.find? k es) (Keyed.find? k es') = false)
      (fun c => c.Tells (Keyed.find? c.key es) (Keyed.find? c.key es')) cs
  | .modelMap _ es, .modelMap _ es', .modelMap cs =>
    Keyed.Lists RecordEntryChange.key
      (fun k => Snapshot.sameValue (.nested (Keyed.find? k es)) (.nested (Keyed.find? k es')) =
        false)
      (fun c => c.intent =
          Snapshot.entryIntent (Keyed.find? c.key es) (Keyed.find? c.key es') ∧
        c.change.Tells (Keyed.find? c.key es) (Keyed.find? c.key es')) cs
  | _, _, _ => False

/-! ### Sets and maps to plain values -/

theorem MemberChange.tells_of_ofKey? {reference current : List Key} (k : Key) (c : MemberChange)
    (h : ofKey? reference current k = some c) : c.Tells reference current := by
  unfold ofKey? at h
  by_cases hr : k ∈ reference
  · by_cases hc : k ∈ current
    · simp [hr, hc] at h
    · rw [if_pos hr, if_neg hc] at h
      cases h
      exact .inl ⟨rfl, hr, hc⟩
  · by_cases hc : k ∈ current
    · rw [if_neg hr, if_pos hc] at h
      cases h
      exact .inr ⟨rfl, hr, hc⟩
    · simp [hr, hc] at h

theorem MemberChange.lists_between {reference current : List Key}
    (hr : KeySet.Ascending reference) (hc : KeySet.Ascending current) :
    Keyed.Lists key (fun k => ¬(k ∈ reference ↔ k ∈ current)) (Tells reference current)
      (settle (collect (between reference current))) :=
  (tabulates_settle_collect (tabulates_between hr hc)).lists
    (sorted_settle (Keyed.ascending_ofList _)) (fun _ => not_congr ofKey?_eq_none_iff)
    tells_of_ofKey?

theorem EntryChange.tells_of_ofKey? {reference current : Keyed Datum} (k : Key) (c : EntryChange)
    (h : ofKey? reference current k = some c) :
    c.Tells (Keyed.find? c.key reference) (Keyed.find? c.key current) := by
  have hkey : c.key = k := by
    unfold ofKey? at h
    cases hcurrent : Keyed.find? k current with
    | some v =>
        rw [hcurrent] at h
        exact key_of_ofPair? (k, v) c h
    | none =>
        rw [hcurrent] at h
        obtain ⟨v, -, hv⟩ := Option.bind_eq_some_iff.1 h
        cases hv
        rfl
  rw [hkey]
  unfold ofKey? ofPair? at h
  unfold Tells
  cases hreference : Keyed.find? k reference with
  | none =>
      cases hcurrent : Keyed.find? k current with
      | none => simp [hreference, hcurrent] at h
      | some w =>
          simp only [hreference, hcurrent, Option.elim_some, Option.some.injEq] at h
          subst h
          exact ⟨rfl, rfl⟩
  | some v =>
      cases hcurrent : Keyed.find? k current with
      | none =>
          simp only [hreference, hcurrent, Option.elim_none, Option.bind_some,
            Option.some.injEq] at h
          subst h
          exact ⟨rfl, rfl⟩
      | some w =>
          simp only [hreference, hcurrent, Option.elim_some] at h
          split at h
          · cases h
          · cases h
            exact ⟨rfl, rfl⟩

theorem EntryChange.lists_between {reference current : Keyed Datum}
    (hr : Keyed.Ascending reference) (hc : Keyed.Ascending current)
    (hrp : ∀ e ∈ reference, e.2.isPlain = true) (hcp : ∀ e ∈ current, e.2.isPlain = true) :
    Keyed.Lists key
      (fun k => Datum.sameOption (Keyed.find? k reference) (Keyed.find? k current) = false)
      (fun c => c.Tells (Keyed.find? c.key reference) (Keyed.find? c.key current))
      (settle (collect (between reference current))) := by
  have hplain : ∀ {m : Keyed Datum}, Keyed.Ascending m → (∀ e ∈ m, e.2.isPlain = true) →
      ∀ k, ∀ v ∈ Keyed.find? k m, v.isPlain = true :=
    fun hm h k v hv => h (k, v) ((Keyed.mem_iff_find? hm k v).2 hv)
  refine (tabulates_settle_collect (tabulates_between hr hc)).lists
    (sorted_settle (Keyed.ascending_ofList _)) (fun k => ?_) tells_of_ofKey?
  rw [Ne, ofKey?_eq_none_iff (hplain hr hrp k) (hplain hc hcp k), ← Bool.not_eq_true,
    Datum.sameOption_iff_eq (hplain hr hrp k) (hplain hc hcp k)]

namespace Snapshot

variable {models : String → Layout}

/-! ### Sub-records -/

theorem diffAgainst_edit {r s : Snapshot} (hidentity : r.identity = s.identity)
    (intent : Intent) : s.edit.diffAgainst intent r = .ok (s.diffFrom intent r.fields) := by
  rw [← Draft.diffFrom_edit]
  exact Draft.diffAgainst_eq s.edit intent (congrArg Identity.key hidentity)

theorem tells_of_recordChange? {r s : Option Snapshot} {c : Change}
    (h : recordChange? r s = some c) : c.Tells r s := by
  unfold Change.Tells
  obtain ⟨v, rfl, rfl, hdelete⟩ | ⟨v, w, rfl, rfl, hidentity, hupdate⟩ | ⟨w, rfl, hdiffer, hadd⟩ :=
    recordChange?_cases h
  · exact hdelete
  · dsimp only
    rw [if_pos hidentity, diffAgainst_edit hidentity, hupdate]
  · cases r with
    | none => exact hadd
    | some v =>
        dsimp only
        rw [if_neg (hdiffer v rfl)]
        exact hadd

theorem sameValue_nested_iff {r s : Option Snapshot} (hr : ∀ t ∈ r, t.isPlain = true)
    (hs : ∀ t ∈ s, t.isPlain = true) :
    sameValue (.nested r) (.nested s) = true ↔ r.map bare = s.map bare := by
  have hsame := sameValue_iff (v := .nested r) (w := .nested s)
    (fun t ht => sameIsBare_of_isPlain (hr t (by simpa [Value.records] using ht)))
    (plainValue_nested.2 hr) (plainValue_nested.2 hs)
  rw [hsame, bareValue_nested, bareValue_nested, Value.nested.injEq]

theorem lists_between {m : String} {reference current : Keyed Snapshot}
    (hr : FitsEntries models m reference) (hc : FitsEntries models m current) :
    Keyed.Lists RecordEntryChange.key
      (fun k => sameValue (.nested (Keyed.find? k reference)) (.nested (Keyed.find? k current)) =
        false)
      (fun c => c.intent = entryIntent (Keyed.find? c.key reference) (Keyed.find? c.key current) ∧
        c.change.Tells (Keyed.find? c.key reference) (Keyed.find? c.key current))
      (RecordEntryChange.sorted (RecordEntryChange.between reference current)) := by
  refine (tabulates_sorted_between hr hc).lists (RecordEntryChange.sorted_sorted _) (fun k => ?_)
    fun k c hentry => ?_
  · have hnone := recordChange?_eq_none_iff (fun t ht => (hr.find? k t ht).2)
      fun t ht => (hc.find? k t ht).2
    rw [Ne, Option.map_eq_none_iff, hnone, ← Bool.not_eq_true,
      sameValue_nested_iff (fun t ht => (hr.find? k t ht).2.2) fun t ht => (hc.find? k t ht).2.2]
  · obtain ⟨d, hd, rfl⟩ := Option.map_eq_some_iff.1 hentry
    exact ⟨rfl, tells_of_recordChange? hd⟩

/-! ### Fields -/

theorem tells_of_diffValue {kind : FieldKind} {r v : Value Snapshot}
    (hr : ValueConforms models kind r) (hv : ValueConforms models kind v)
    (hrp : plainValue r = true) (hvp : plainValue v = true) :
    ∀ p ∈ diffValue r v, p.sorted.Tells r v := by
  intro p hp
  cases found_of_mem_diffValue hr hv hrp hvp hp with
  | scalar => rfl
  | attached => rfl
  | nested _ _ hc => exact tells_of_recordChange? hc
  | keySet _ _ hx hy => exact MemberChange.lists_between hx hy
  | valueMap _ _ hx hy hxp hyp => exact EntryChange.lists_between hx hy hxp hyp
  | modelMap _ _ hx hy => exact lists_between hx hy

/-- Something is found for a field exactly if its two values differ. -/
theorem diffValue_isSome_iff {kind : FieldKind} {r v : Value Snapshot}
    (hr : ValueConforms models kind r) (hv : ValueConforms models kind v)
    (hrp : plainValue r = true) (hvp : plainValue v = true) :
    (diffValue r v).isSome = true ↔ sameValue r v = false := by
  have hnone := diffValue_eq_none_iff hr hv hrp hvp fun t ht htc =>
    diffsExactly_of_conforms htc (isPlain_of_mem_records hvp ht)
  have hsame := sameValue_iff (fun t ht => sameIsBare_of_isPlain (isPlain_of_mem_records hrp ht))
    hrp hvp
  rw [Option.isSome_iff_ne_none, Ne, hnone, ← hsame, Bool.not_eq_true]

theorem forall₂_payloads {kinds : List FieldKind} {rs vs : List (Value Snapshot)}
    (hrs : List.Forall₂ (ValueConforms models) kinds rs)
    (hvs : List.Forall₂ (ValueConforms models) kinds vs)
    (hrp : ∀ r ∈ rs, plainValue r = true) (hvp : ∀ v ∈ vs, plainValue v = true) :
    List.Forall₂
      (fun e p => (p.isSome = true ↔ sameValue e.1 e.2 = false) ∧ ∀ q ∈ p, q.Tells e.1 e.2)
      (rs.zip vs) ((List.zipWith diffValue rs vs).map (Option.map Payload.sorted)) := by
  induction hrs generalizing vs with
  | nil =>
      cases hvs
      exact .nil
  | @cons kind r kinds rs hr hrs ih =>
      cases hvs with
      | @cons _ v _ vs hv hvs =>
          rw [List.forall_mem_cons] at hrp hvp
          refine .cons ⟨?_, ?_⟩ (ih hvs hrp.2 hvp.2)
          · rw [Option.isSome_map]
            exact diffValue_isSome_iff hr hv hrp.1 hvp.1
          · intro q hq
            obtain ⟨p, hp, rfl⟩ := Option.map_eq_some_iff.1 hq
            exact tells_of_diffValue hr hv hrp.1 hvp.1 p hp

/-- The change between two versions of a record carries exactly the fields that differ, and for each
of them exactly what has become of it. -/
theorem diff_exact {a b : Snapshot} (ha : a.Conforms models) (hb : b.Conforms models)
    (haplain : a.isPlain = true) (hbplain : b.isPlain = true)
    (hidentity : a.identity = b.identity) :
    ∃ found, b.edit.diffAgainst .update a = .ok found ∧
      (found = none ↔ a.same b = true) ∧
      ∀ d ∈ found, d.identity = b.identity ∧ d.intent = .update ∧
        List.Forall₂
          (fun e p => (p.isSome = true ↔ sameValue e.1 e.2 = false) ∧ ∀ q ∈ p, q.Tells e.1 e.2)
          (a.fields.zip b.fields) d.fields := by
  have hlayout : a.layout = b.layout := congrArg Identity.layout hidentity
  have hbase := isBase_fields ha haplain hlayout
  refine ⟨b.diffFrom .update a.fields, diffAgainst_edit hidentity .update, ?_, ?_⟩
  · rw [(diffsExactly_of_conforms hb hbplain).update_eq_none_iff ha haplain hidentity,
      same_iff_bare_eq haplain hbplain]
  · intro d hd
    obtain ⟨hdi, hintent⟩ := of_diffFrom hd
    rw [Option.mem_def, diffFrom_eq_ite hb hbase] at hd
    obtain ⟨-, hd⟩ := Option.ite_none_left_eq_some.1 hd
    cases hd
    exact ⟨hdi, hintent,
      forall₂_payloads hbase.conforms (conforms_iff.1 hb) hbase.plain (isPlain_iff.1 hbplain)⟩

/-- Of a node whose only child has another label now, only that child is carried. -/
theorem diff_exact_of_relabelled :
    ∃ d cs, (Samples.family "twig").edit.diffAgainst .update (Samples.family "leaf") =
        .ok (some d) ∧ d.fields = [none, some (.modelMap cs)] ∧
      ∀ k, k ∈ cs.map RecordEntryChange.key ↔ k = .int 7 := by
  obtain ⟨found, hfound, hnone, hexact⟩ := diff_exact (Samples.conforms_family "leaf")
    (Samples.conforms_family "twig") (Samples.isPlain_family "leaf") (Samples.isPlain_family "twig")
    rfl
  cases found with
  | none => simp [not_same_of_relabelled] at hnone
  | some d =>
      obtain ⟨-, -, hfields⟩ := hexact d rfl
      obtain ⟨label, rest, ⟨hlabel, -⟩, hrest, hd⟩ := List.forall₂_cons_left_iff.1 hfields
      obtain ⟨children, later, ⟨hchildren, htells⟩, hlater, rfl⟩ :=
        List.forall₂_cons_left_iff.1 hrest
      obtain rfl := List.forall₂_nil_left_iff.1 hlater
      have hunchanged : label = none := by
        simpa [sameValue, Datum.same] using hlabel
      obtain ⟨q, rfl⟩ : ∃ q, children = some q := by
        rw [← Option.isSome_iff_exists, hchildren]
        simp [Samples.tree, sameValue, sameEntries, same, sameFields, Datum.same]
      have hq := htells q rfl
      cases q <;> simp only [Payload.Tells] at hq
      refine ⟨d, _, hfound, by rw [hd, hunchanged], fun k => ?_⟩
      rw [hq.mem_keys_iff]
      by_cases hk : k = .int 7
      · subst hk
        simp [Keyed.find?, Samples.tree, sameValue, same, sameFields, Datum.same]
      · simp [Keyed.find?, sameValue, hk, Ne.symm hk]

end Snapshot

end VersionedRecords
