import VersionedRecords.Record.Snapshot

/-!
The content of snapshots.

`bare` forgets where the parts of a snapshot were put together and keeps all else.  On plain
snapshots, those without the numbers that are not equal to themselves or equal to another pattern of
bits, equality of content as the library decides it is equality of the bare snapshots.
-/

namespace VersionedRecords

/-- The sub-records directly below one field. -/
def Value.records {σ : Type} : Value σ → List σ
  | .nested s => s.toList
  | .modelMap _ es => es.map Prod.snd
  | _ => []

namespace Snapshot

theorem sizeOf_record_lt {s t : Snapshot} {v : Value Snapshot} (hv : v ∈ s.fields)
    (ht : t ∈ v.records) : sizeOf t < sizeOf s := by
  obtain ⟨layout, key, origin, fields⟩ := s
  have hfield : sizeOf v < sizeOf fields := List.sizeOf_lt_of_mem hv
  have hrecord : sizeOf t < sizeOf v := by
    cases v with
    | nested r =>
        cases r with
        | none => simp [Value.records] at ht
        | some r =>
            simp only [Value.records, Option.toList_some, List.mem_singleton] at ht
            subst ht
            simp +arith
    | modelMap origin entries =>
        obtain ⟨e, he, rfl⟩ := List.mem_map.1 ht
        have hentry := List.sizeOf_lt_of_mem he
        obtain ⟨k, r⟩ := e
        simp only [Prod.mk.sizeOf_spec, Value.modelMap.sizeOf_spec] at hentry ⊢
        omega
    | _ => simp [Value.records] at ht
  simp only [Snapshot.mk.sizeOf_spec]
  omega

/-- What holds of a snapshot whenever it holds of all sub-records directly below holds of every
snapshot. -/
theorem induction {P : Snapshot → Prop}
    (step : ∀ s, (∀ v ∈ s.fields, ∀ t ∈ v.records, P t) → P s) (s : Snapshot) : P s := by
  apply step s
  intro v hv t ht
  exact induction step t
termination_by sizeOf s
decreasing_by exact sizeOf_record_lt hv ht

/-! ### Contents field by field -/

theorem bareFields_eq_map (fs : List (Value Snapshot)) : bareFields fs = fs.map bareValue := by
  induction fs with
  | nil => simp [bareFields]
  | cons v vs ih => simp [bareFields, ih]

theorem bareEntries_eq_map (es : List (Key × Snapshot)) :
    bareEntries es = es.map fun e => (e.1, e.2.bare) := by
  induction es with
  | nil => simp [bareEntries]
  | cons e es ih => simp [bareEntries, ih]

theorem bareValue_nested (s : Option Snapshot) :
    bareValue (.nested s) = .nested (s.map bare) := by
  cases s <;> simp [bareValue]

theorem bare_eq (s : Snapshot) : s.bare = ⟨s.layout, s.key, .zero, s.fields.map bareValue⟩ := by
  obtain ⟨layout, key, origin, fields⟩ := s
  simp [bare, bareFields_eq_map]

@[simp] theorem layout_bare (s : Snapshot) : s.bare.layout = s.layout := by rw [bare_eq]

@[simp] theorem key_bare (s : Snapshot) : s.bare.key = s.key := by rw [bare_eq]

@[simp] theorem identity_bare (s : Snapshot) : s.bare.identity = s.identity := by
  rw [identity, layout_bare, key_bare, identity]

theorem fields_bare (s : Snapshot) : s.bare.fields = s.fields.map bareValue := by rw [bare_eq]

theorem bare_eq_iff {s t : Snapshot} :
    s.bare = t.bare ↔
      s.identity = t.identity ∧ s.fields.map bareValue = t.fields.map bareValue := by
  rw [bare_eq, bare_eq]
  simp [identity, and_assoc]

theorem find?_bareEntries (k : Key) (es : List (Key × Snapshot)) :
    Keyed.find? k (bareEntries es) = (Keyed.find? k es).map bare := by
  induction es with
  | nil => simp [bareEntries]
  | cons e es ih =>
      obtain ⟨l, s⟩ := e
      by_cases hk : l = k
      · simp [bareEntries, Keyed.find?, hk]
      · simp [bareEntries, Keyed.find?, hk, ih]

/-! ### Identical snapshots -/

theorem eq_of_identicalEntries {es es' : List (Key × Snapshot)}
    (ih : ∀ e ∈ es, ∀ t, e.2.identical t = true → e.2 = t)
    (h : identicalEntries es es' = true) : es = es' := by
  induction es generalizing es' with
  | nil =>
      cases es' with
      | nil => rfl
      | cons e' es' => simp [identicalEntries] at h
  | cons e es ihes =>
      cases es' with
      | nil => simp [identicalEntries] at h
      | cons e' es' =>
          obtain ⟨k, s⟩ := e
          obtain ⟨k', s'⟩ := e'
          simp only [identicalEntries, Bool.and_eq_true, beq_iff_eq] at h
          obtain ⟨⟨rfl, hs⟩, hrest⟩ := h
          obtain rfl := ih (k, s) (by simp) s' hs
          rw [ihes (fun e he => ih e (List.mem_cons_of_mem _ he)) hrest]

theorem eq_of_identicalValue {v w : Value Snapshot}
    (ih : ∀ s ∈ v.records, ∀ t, s.identical t = true → s = t)
    (h : identicalValue v w = true) : v = w := by
  cases v with
  | nested s =>
      cases w with
      | nested t =>
          cases s <;> cases t <;> simp only [identicalValue] at h <;> try cases h
          · rfl
          · rw [ih _ (by simp [Value.records]) _ h]
      | _ => cases s <;> simp [identicalValue] at h
  | modelMap o es =>
      cases w with
      | modelMap o' es' =>
          simp only [identicalValue, Bool.and_eq_true, beq_iff_eq] at h
          rw [h.1, eq_of_identicalEntries (fun e he => ih e.2 (List.mem_map_of_mem he)) h.2]
      | _ => simp [identicalValue] at h
  | _ => cases w <;> simp_all [identicalValue]

theorem eq_of_identicalFields {fs gs : List (Value Snapshot)}
    (ih : ∀ v ∈ fs, ∀ s ∈ v.records, ∀ t, s.identical t = true → s = t)
    (h : identicalFields fs gs = true) : fs = gs := by
  induction fs generalizing gs with
  | nil => cases gs <;> simp_all [identicalFields]
  | cons v fs ihfs =>
      cases gs with
      | nil => simp [identicalFields] at h
      | cons w gs =>
          simp only [identicalFields, Bool.and_eq_true] at h
          rw [eq_of_identicalValue (ih v (by simp)) h.1,
            ihfs (fun v hv => ih v (List.mem_cons_of_mem _ hv)) h.2]

theorem eq_of_identical {s t : Snapshot} (h : s.identical t = true) : s = t := by
  induction s using Snapshot.induction generalizing t with
  | step s ih =>
      obtain ⟨l, k, o, fs⟩ := s
      obtain ⟨l', k', o', fs'⟩ := t
      simp only [identical, Bool.and_eq_true, beq_iff_eq] at h
      obtain ⟨⟨⟨rfl, rfl⟩, rfl⟩, hfields⟩ := h
      have hfs : fs = fs' := eq_of_identicalFields (fun v hv s hs t ht => ih v hv s hs ht) hfields
      rw [hfs]

theorem eq_of_isShared {s t : Snapshot} (h : s.isShared t = true) : s = t := by
  simp only [isShared, Bool.and_eq_true] at h
  exact eq_of_identical h.2

theorem identicalEntries_self {es : List (Key × Snapshot)}
    (ih : ∀ e ∈ es, e.2.identical e.2 = true) : identicalEntries es es = true := by
  induction es with
  | nil => simp [identicalEntries]
  | cons e es ihes =>
      rw [List.forall_mem_cons] at ih
      obtain ⟨k, s⟩ := e
      simp [identicalEntries, ih.1, ihes ih.2]

theorem identicalValue_self {v : Value Snapshot} (ih : ∀ s ∈ v.records, s.identical s = true) :
    identicalValue v v = true := by
  cases v with
  | nested s =>
      cases s with
      | none => simp [identicalValue]
      | some s => simpa [identicalValue] using ih s (by simp [Value.records])
  | modelMap o es =>
      have hes := identicalEntries_self fun e he => ih e.2 (List.mem_map_of_mem he)
      simp [identicalValue, hes]
  | _ => simp [identicalValue]

theorem identicalFields_self {fs : List (Value Snapshot)}
    (ih : ∀ v ∈ fs, identicalValue v v = true) : identicalFields fs fs = true := by
  induction fs with
  | nil => simp [identicalFields]
  | cons v fs ihfs =>
      rw [List.forall_mem_cons] at ih
      simp [identicalFields, ih.1, ihfs ih.2]

theorem identical_self (s : Snapshot) : s.identical s = true := by
  induction s using Snapshot.induction with
  | step s ih =>
      obtain ⟨l, k, o, fs⟩ := s
      have hfields : identicalFields fs fs = true :=
        identicalFields_self fun v hv => identicalValue_self (ih v hv)
      simp [identical, hfields]

/-- Snapshots are one and the same part exactly if they agree in every respect. -/
theorem isShared_iff_eq {s t : Snapshot} : s.isShared t = true ↔ s = t := by
  constructor
  · exact eq_of_isShared
  · rintro rfl
    simp [isShared, identical_self]

/-! ### Plain snapshots -/

theorem plainFields_iff {fs : List (Value Snapshot)} :
    plainFields fs = true ↔ ∀ v ∈ fs, plainValue v = true := by
  induction fs with
  | nil => simp [plainFields]
  | cons v vs ih => simp [plainFields, ih]

theorem plainEntries_iff {es : List (Key × Snapshot)} :
    plainEntries es = true ↔ ∀ e ∈ es, e.2.isPlain = true := by
  induction es with
  | nil => simp [plainEntries]
  | cons e es ih => simp [plainEntries, ih]

theorem isPlain_iff {s : Snapshot} : s.isPlain = true ↔ ∀ v ∈ s.fields, plainValue v = true := by
  obtain ⟨layout, key, origin, fields⟩ := s
  rw [isPlain, plainFields_iff]

theorem plainValue_nested {s : Option Snapshot} :
    plainValue (.nested s) = true ↔ ∀ t ∈ s, t.isPlain = true := by
  cases s <;> simp [plainValue]

theorem plainValue_modelMap {o : Origin} {es : Keyed Snapshot} :
    plainValue (.modelMap o es) = true ↔ ∀ e ∈ es, e.2.isPlain = true := by
  rw [plainValue, plainEntries_iff]

theorem isPlain_of_mem_records {v : Value Snapshot} (hv : plainValue v = true) {t : Snapshot}
    (ht : t ∈ v.records) : t.isPlain = true := by
  cases v with
  | nested s => exact plainValue_nested.1 hv t (by simpa [Value.records] using ht)
  | modelMap origin es =>
      obtain ⟨e, he, rfl⟩ := List.mem_map.1 ht
      exact plainValue_modelMap.1 hv e he
  | _ => simp [Value.records] at ht

theorem plainValue_bareValue {v : Value Snapshot}
    (ih : ∀ s ∈ v.records, s.bare.isPlain = s.isPlain) :
    plainValue (bareValue v) = plainValue v := by
  cases v with
  | nested s =>
      cases s with
      | none => rw [bareValue]
      | some s => rw [bareValue, plainValue, plainValue, ih s (by simp [Value.records])]
  | modelMap o es =>
      rw [bareValue, plainValue, plainValue, Bool.eq_iff_iff, plainEntries_iff, plainEntries_iff,
        bareEntries_eq_map, List.forall_mem_map]
      refine forall₂_congr fun e he => ?_
      rw [ih e.2 (List.mem_map_of_mem he)]
  | _ => simp [bareValue, plainValue]

@[simp] theorem isPlain_bare (s : Snapshot) : s.bare.isPlain = s.isPlain := by
  induction s using Snapshot.induction with
  | step s ih =>
      rw [Bool.eq_iff_iff, isPlain_iff, isPlain_iff, fields_bare, List.forall_mem_map]
      refine forall₂_congr fun v hv => ?_
      rw [plainValue_bareValue (ih v hv)]

end Snapshot

theorem Binary64.same_iff_eq {x y : Binary64} (hx : x.isPlain = true) (hy : y.isPlain = true) :
    x.same y = true ↔ x = y := by
  obtain ⟨x⟩ := x
  obtain ⟨y⟩ := y
  simp only [isPlain, same, isNaN, isZero, isNegative, exponentBits, fractionBits] at *
  have hxlt := x.toNat_lt
  have hylt := y.toNat_lt
  simp only [Bool.and_eq_true, Bool.or_eq_true, Bool.not_eq_true', Bool.and_eq_false_iff,
    beq_iff_eq, bne_eq_false_iff_eq, beq_eq_false_iff_ne, decide_eq_false_iff_not,
    mk.injEq, ← UInt64.toNat_inj] at *
  omega

namespace Datum

theorem same_iff_eq {a b : Datum} (ha : a.isPlain = true) (hb : b.isPlain = true) :
    a.same b = true ↔ a = b := by
  cases a with
  | float x =>
      cases b with
      | float y => simpa [same] using Binary64.same_iff_eq ha hb
      | _ => simp [same]
  | _ => cases b <;> simp [same]

theorem sameOption_iff_eq {a b : Option Datum} (ha : ∀ v ∈ a, v.isPlain = true)
    (hb : ∀ v ∈ b, v.isPlain = true) : sameOption a b = true ↔ a = b := by
  cases a with
  | none => cases b <;> simp [sameOption]
  | some a =>
      cases b with
      | none => simp [sameOption]
      | some b => simpa [sameOption] using same_iff_eq (ha a rfl) (hb b rfl)

end Datum

namespace Snapshot

theorem samePairs_iff_eq {es es' : List (Key × Datum)} (hes : ∀ e ∈ es, e.2.isPlain = true)
    (hes' : ∀ e ∈ es', e.2.isPlain = true) : samePairs es es' = true ↔ es = es' := by
  induction es generalizing es' with
  | nil => cases es' <;> simp [samePairs]
  | cons e es ih =>
      cases es' with
      | nil => simp [samePairs]
      | cons e' es' =>
          obtain ⟨k, v⟩ := e
          obtain ⟨k', v'⟩ := e'
          have hv := Datum.same_iff_eq (hes (k, v) (by simp)) (hes' (k', v') (by simp))
          have hrest := ih (fun e he => hes e (List.mem_cons_of_mem _ he))
            fun e he => hes' e (List.mem_cons_of_mem _ he)
          simp [samePairs, hv, hrest]

/-- Sameness of the snapshot agrees with equality of content, whatever plain snapshot it is compared
with. -/
def SameIsBare (s : Snapshot) : Prop :=
  ∀ t : Snapshot, t.isPlain = true → (s.same t = true ↔ s.bare = t.bare)

theorem sameEntries_iff {es es' : List (Key × Snapshot)} (ih : ∀ e ∈ es, e.2.SameIsBare)
    (hes' : ∀ e ∈ es', e.2.isPlain = true) :
    sameEntries es es' = true ↔ bareEntries es = bareEntries es' := by
  induction es generalizing es' with
  | nil => cases es' <;> simp [sameEntries, bareEntries]
  | cons e es ihes =>
      cases es' with
      | nil => simp [sameEntries, bareEntries]
      | cons e' es' =>
          obtain ⟨k, s⟩ := e
          obtain ⟨k', s'⟩ := e'
          have hs := ih (k, s) (by simp) s' (hes' (k', s') (by simp))
          have hrest := ihes (fun e he => ih e (List.mem_cons_of_mem _ he))
            fun e he => hes' e (List.mem_cons_of_mem _ he)
          simp [sameEntries, bareEntries, hs, hrest]

theorem sameValue_iff {v w : Value Snapshot} (ih : ∀ s ∈ v.records, s.SameIsBare)
    (hv : plainValue v = true) (hw : plainValue w = true) :
    sameValue v w = true ↔ bareValue v = bareValue w := by
  cases v with
  | scalar a =>
      cases w with
      | scalar b => simpa [sameValue, bareValue] using Datum.same_iff_eq hv hw
      | nested s => cases s <;> simp [sameValue, bareValue]
      | _ => simp [sameValue, bareValue]
  | attached a =>
      cases w with
      | attached b =>
          simp only [sameValue, bareValue, Value.attached.injEq]
          apply Datum.sameOption_iff_eq
          · simpa [plainValue, Option.all_eq_true] using hv
          · simpa [plainValue, Option.all_eq_true] using hw
      | nested s => cases s <;> simp [sameValue, bareValue]
      | _ => simp [sameValue, bareValue]
  | nested s =>
      cases w with
      | nested t =>
          cases s with
          | none => cases t <;> simp [sameValue, bareValue]
          | some s =>
              cases t with
              | none => simp [sameValue, bareValue]
              | some t =>
                  have hst := ih s (by simp [Value.records]) t (plainValue_nested.1 hw t rfl)
                  simpa [sameValue, bareValue] using hst
      | _ => cases s <;> simp [sameValue, bareValue]
  | keySet o ms =>
      cases w with
      | nested s => cases s <;> simp [sameValue, bareValue]
      | _ => simp [sameValue, bareValue]
  | valueMap o es =>
      cases w with
      | valueMap o' es' =>
          simp only [plainValue, List.all_eq_true] at hv hw
          simpa [sameValue, bareValue] using samePairs_iff_eq hv hw
      | nested s => cases s <;> simp [sameValue, bareValue]
      | _ => simp [sameValue, bareValue]
  | modelMap o es =>
      cases w with
      | modelMap o' es' =>
          rw [plainValue, plainEntries_iff] at hw
          have hes : ∀ e ∈ es, e.2.SameIsBare := fun e he => ih e.2 (List.mem_map_of_mem he)
          simpa [sameValue, bareValue] using sameEntries_iff hes hw
      | nested s => cases s <;> simp [sameValue, bareValue]
      | _ => simp [sameValue, bareValue]

theorem sameFields_iff {fs gs : List (Value Snapshot)}
    (ih : ∀ v ∈ fs, ∀ s ∈ v.records, s.SameIsBare) (hfs : ∀ v ∈ fs, plainValue v = true)
    (hgs : ∀ v ∈ gs, plainValue v = true) :
    sameFields fs gs = true ↔ fs.map bareValue = gs.map bareValue := by
  induction fs generalizing gs with
  | nil => cases gs <;> simp [sameFields]
  | cons v fs ihfs =>
      cases gs with
      | nil => simp [sameFields]
      | cons w gs =>
          have hvw := sameValue_iff (ih v (by simp)) (hfs v (by simp)) (hgs w (by simp))
          have hrest := ihfs (fun v hv => ih v (List.mem_cons_of_mem _ hv))
            (fun v hv => hfs v (List.mem_cons_of_mem _ hv))
            fun v hv => hgs v (List.mem_cons_of_mem _ hv)
          simp [sameFields, hvw, hrest]

theorem sameIsBare_of_isPlain {s : Snapshot} (hs : s.isPlain = true) : s.SameIsBare := by
  induction s using Snapshot.induction with
  | step s ih =>
      intro t ht
      rw [isPlain_iff] at hs ht
      have hrecords : ∀ v ∈ s.fields, ∀ r ∈ v.records, r.SameIsBare := fun v hv r hr =>
        ih v hv r hr (isPlain_of_mem_records (hs v hv) hr)
      have hfields := sameFields_iff hrecords hs ht
      obtain ⟨l, k, o, fs⟩ := s
      obtain ⟨l', k', o', fs'⟩ := t
      simp only [same, Bool.and_eq_true, beq_iff_eq, bare_eq_iff, identity, Identity.mk.injEq,
        hfields]
      rw [@and_comm (k = k')]

/-- On plain snapshots, equality of content is equality of the bare snapshots. -/
theorem same_iff_bare_eq {s t : Snapshot} (hs : s.isPlain = true) (ht : t.isPlain = true) :
    s.same t = true ↔ s.bare = t.bare :=
  sameIsBare_of_isPlain hs t ht

end Snapshot

end VersionedRecords
