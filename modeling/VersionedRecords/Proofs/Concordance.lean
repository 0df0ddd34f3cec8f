import VersionedRecords.Proofs.Orderly

/-!
What is said of an element and what is carried for it.

The change of an entry says for itself what becomes of the entry, and beside that it carries the
change of the sub-record or the value.  Merging takes in the one by the intents alone and the other
by what it is a change of, so the two could part.  If they agree in all that is merged, then they
agree in what is built of it.
-/

namespace VersionedRecords

/-! ### Agreement -/

/-- The change deletes the entry exactly if it carries the deletion of the sub-record, and it
carries an update of the sub-record only if the entry stays. -/
def RecordEntryChange.Agrees (c : RecordEntryChange Change) : Prop :=
  (c.intent = .delete ↔ c.change.intent = .delete) ∧
    (c.change.intent = .update → c.intent ≠ .delete)

/-- The change deletes the entry exactly if it carries no value. -/
def EntryChange.Agrees (c : EntryChange) : Prop := c.intent = .delete ↔ c.value = none

/-- Every element that is spoken about for a field agrees with what is carried for it. -/
def Payload.Agrees : Payload Change → Prop
  | .valueMap cs => ∀ c ∈ cs, c.Agrees
  | .modelMap cs => ∀ c ∈ cs, c.Agrees
  | _ => True

/-- At every depth of the change all elements agree with what is carried for them. -/
inductive Change.Concordant : Change → Prop
  | intro {c : Change} (agrees : ∀ p, some p ∈ c.fields → p.Agrees)
      (below : ∀ p, some p ∈ c.fields → ∀ d ∈ p.changes, Change.Concordant d) :
      Change.Concordant c

/-- What is carried for a field agrees, and so do the changes of sub-records in it. -/
structure Payload.Concordant (p : Payload Change) : Prop where
  agrees : p.Agrees
  below : ∀ d ∈ p.changes, d.Concordant

/-- What is pending for an entry with a value has none exactly if it deletes the entry. -/
def EntryState.Agrees (s : EntryState) : Prop := s.state.current = .delete ↔ s.value = none

/-- What is pending for an entry with a sub-record deletes both or neither. -/
def RecordEntryState.Agrees (s : RecordEntryState Accumulator) : Prop :=
  s.state.current = .delete ↔ s.pending.state.current = .delete

/-- Every element for which something is pending agrees with what is pending for it. -/
def Pending.Agrees : Pending Accumulator → Prop
  | .valueMap es => ∀ e ∈ es, e.2.Agrees
  | .modelMap es => ∀ e ∈ es, e.2.Agrees
  | _ => True

/-- At every depth of the accumulator all elements agree with what is pending for them. -/
inductive Accumulator.Concordant : Accumulator → Prop
  | intro {a : Accumulator} (agrees : ∀ q ∈ a.fields, q.Agrees)
      (below : ∀ q ∈ a.fields, ∀ b ∈ q.accumulators, Accumulator.Concordant b) :
      Accumulator.Concordant a

/-- What is pending for a field agrees, and so does what is pending for the sub-records in it. -/
structure Pending.Concordant (q : Pending Accumulator) : Prop where
  agrees : q.Agrees
  below : ∀ b ∈ q.accumulators, b.Concordant

/-- An update is no deletion, so the first half says it all. -/
theorem RecordEntryChange.agrees_iff {c : RecordEntryChange Change} :
    c.Agrees ↔ (c.intent = .delete ↔ c.change.intent = .delete) := by
  refine and_iff_left_of_imp fun h hupdate hdelete => ?_
  have hdeletion := h.1 hdelete
  rw [hupdate] at hdeletion
  cases hdeletion

theorem Change.concordant_iff {c : Change} :
    c.Concordant ↔ ∀ p, some p ∈ c.fields → p.Concordant := by
  constructor
  · rintro ⟨hagrees, hbelow⟩ p hp
    exact ⟨hagrees p hp, hbelow p hp⟩
  · exact fun h => ⟨fun p hp => (h p hp).agrees, fun p hp => (h p hp).below⟩

theorem Accumulator.concordant_iff {a : Accumulator} :
    a.Concordant ↔ ∀ q ∈ a.fields, q.Concordant := by
  constructor
  · rintro ⟨hagrees, hbelow⟩ q hq
    exact ⟨hagrees q hq, hbelow q hq⟩
  · exact fun h => ⟨fun q hq => (h q hq).agrees, fun q hq => (h q hq).below⟩

/-! ### Agreement, kind by kind -/

namespace Payload

theorem concordant_iff {p : Payload Change} :
    p.Concordant ↔ p.Agrees ∧ ∀ d ∈ p.changes, d.Concordant :=
  ⟨fun h => ⟨h.agrees, h.below⟩, fun h => ⟨h.1, h.2⟩⟩

@[simp] theorem concordant_scalar (v : Datum) : (scalar v : Payload Change).Concordant := by
  simp [concordant_iff, Agrees, changes]

@[simp] theorem concordant_attached (v : Option Datum) :
    (attached v : Payload Change).Concordant := by
  simp [concordant_iff, Agrees, changes]

@[simp] theorem concordant_nested {c : Change} : (nested c).Concordant ↔ c.Concordant := by
  simp [concordant_iff, Agrees, changes]

@[simp] theorem concordant_keySet (cs : List MemberChange) :
    (keySet cs : Payload Change).Concordant := by
  simp [concordant_iff, Agrees, changes]

@[simp] theorem concordant_valueMap {cs : List EntryChange} :
    (valueMap cs : Payload Change).Concordant ↔ ∀ c ∈ cs, c.Agrees := by
  simp [concordant_iff, Agrees, changes]

@[simp] theorem concordant_modelMap {cs : List (RecordEntryChange Change)} :
    (modelMap cs).Concordant ↔ ∀ c ∈ cs, c.Agrees ∧ c.change.Concordant := by
  simp [concordant_iff, Agrees, changes, forall_and]

/-- The changes of elements are passed on only if there are any. -/
theorem concordant_of_keySet {cs : List MemberChange} {p : Payload Change}
    (hp : (nonEmpty? cs).map keySet = some p) : p.Concordant := by
  obtain ⟨cs', -, rfl⟩ := Option.map_eq_some_iff.1 hp
  exact concordant_keySet cs'

theorem concordant_of_valueMap {cs : List EntryChange} (hcs : ∀ c ∈ cs, c.Agrees)
    {p : Payload Change} (hp : (nonEmpty? cs).map valueMap = some p) : p.Concordant := by
  obtain ⟨cs', hsome, rfl⟩ := Option.map_eq_some_iff.1 hp
  obtain ⟨-, rfl⟩ := nonEmpty?_eq_some_iff.1 hsome
  exact concordant_valueMap.2 hcs

theorem concordant_of_modelMap {cs : List (RecordEntryChange Change)}
    (hcs : ∀ c ∈ cs, c.Agrees ∧ c.change.Concordant) {p : Payload Change}
    (hp : (nonEmpty? cs).map modelMap = some p) : p.Concordant := by
  obtain ⟨cs', hsome, rfl⟩ := Option.map_eq_some_iff.1 hp
  obtain ⟨-, rfl⟩ := nonEmpty?_eq_some_iff.1 hsome
  exact concordant_modelMap.2 hcs

end Payload

namespace Pending

theorem concordant_iff {q : Pending Accumulator} :
    q.Concordant ↔ q.Agrees ∧ ∀ b ∈ q.accumulators, b.Concordant :=
  ⟨fun h => ⟨h.agrees, h.below⟩, fun h => ⟨h.1, h.2⟩⟩

@[simp] theorem concordant_scalar (v : Option Datum) :
    (scalar v : Pending Accumulator).Concordant := by
  simp [concordant_iff, Agrees, accumulators]

@[simp] theorem concordant_attached (v : Option (Option Datum)) :
    (attached v : Pending Accumulator).Concordant := by
  simp [concordant_iff, Agrees, accumulators]

@[simp] theorem concordant_nested {a : Option Accumulator} :
    (nested a).Concordant ↔ ∀ b ∈ a, b.Concordant := by
  simp [concordant_iff, Agrees, accumulators]

@[simp] theorem concordant_keySet (es : Keyed IntentState) :
    (keySet es : Pending Accumulator).Concordant := by
  simp [concordant_iff, Agrees, accumulators]

@[simp] theorem concordant_valueMap {es : Keyed EntryState} :
    (valueMap es : Pending Accumulator).Concordant ↔ ∀ e ∈ es, e.2.Agrees := by
  simp [concordant_iff, Agrees, accumulators]

@[simp] theorem concordant_modelMap {es : Keyed (RecordEntryState Accumulator)} :
    (modelMap es).Concordant ↔ ∀ e ∈ es, e.2.Agrees ∧ e.2.pending.Concordant := by
  constructor
  · exact fun h e he => ⟨h.agrees e he, h.below _ (List.mem_map_of_mem he)⟩
  · refine fun h => ⟨fun e he => (h e he).1, fun b hb => ?_⟩
    obtain ⟨e, he, rfl⟩ := List.mem_map.1 hb
    exact (h e he).2

end Pending

/-! ### Merging -/

theorem EntryChange.Agrees.merged {c : EntryChange} (hc : c.Agrees) (s : Option EntryState) :
    (c.merged s).Agrees := by
  rw [EntryState.Agrees, EntryChange.current_merged, EntryChange.value_merged]
  exact hc

namespace Accumulator

theorem state_ofChange (c : Change) : (ofChange c).state = .start c.intent := by
  obtain ⟨layout, intent, key, fields⟩ := c
  rw [ofChange]

/-- What is pending for a sub-record is its deletion exactly if the change that came last deletes
it. -/
theorem current_absorbRecord (c : Change) (q : Option Accumulator) :
    (absorbRecord c q).state.current = .delete ↔ c.intent = .delete := by
  have hbegin : (ofChange c).state.current = .delete ↔ c.intent = .delete := by
    rw [state_ofChange]
    rfl
  cases q with
  | none => exact hbegin
  | some a =>
      rw [absorbRecord]
      split
      · rw [absorb_eq]
        exact a.state.current_absorb_eq_delete_iff c.intent
      · exact hbegin

end Accumulator

/-- The entry and its sub-record take in the two intents of a change side by side. -/
theorem RecordEntryChange.Agrees.merged {c : RecordEntryChange Change} (hc : c.Agrees)
    (s : Option (RecordEntryState Accumulator)) : (c.merged s).Agrees := by
  rw [RecordEntryState.Agrees, RecordEntryChange.current_merged,
    RecordEntryChange.pending_merged, Accumulator.current_absorbRecord]
  exact hc.1

namespace Accumulator

theorem concordant_zero (kind : FieldKind) : (Pending.zero kind).Concordant := by
  cases kind <;> simp [Pending.zero]

theorem concordant_start (layout : Layout) (intent : Intent) (key : Key) :
    (start layout intent key).Concordant := by
  refine concordant_iff.2 fun q hq => ?_
  obtain ⟨kind, -, rfl⟩ := List.mem_map.1 hq
  exact concordant_zero kind

theorem concordant_ofPayload {p : Payload Change} (hp : p.Concordant)
    (ih : ∀ d ∈ p.changes, (ofChange d).Concordant) : (ofPayload p).Concordant := by
  cases p with
  | nested c =>
      rw [ofPayload]
      simpa [Payload.changes] using ih
  | valueMap cs =>
      rw [ofPayload, Pending.concordant_valueMap]
      intro e he
      obtain ⟨c, hc, rfl⟩ := List.mem_map.1 (Keyed.mem_ofList he)
      exact hp.agrees c hc
  | modelMap cs =>
      rw [ofPayload, Pending.concordant_modelMap, ofEntries_eq_map]
      intro e he
      obtain ⟨c, hc, rfl⟩ := List.mem_map.1 (Keyed.mem_ofList he)
      refine ⟨?_, ih c.change (List.mem_map_of_mem hc)⟩
      rw [RecordEntryState.Agrees, RecordEntryChange.toEntry, state_ofChange]
      exact (hp.agrees c hc).1
  | _ => simp [ofPayload]

theorem concordant_ofFields {kinds : List FieldKind} {ps : List (Option (Payload Change))}
    (h : ∀ p, some p ∈ ps → (ofPayload p).Concordant) :
    ∀ q ∈ ofFields kinds ps, q.Concordant := by
  induction ps generalizing kinds with
  | nil => cases kinds <;> simp [ofFields]
  | cons p ps ih =>
      cases kinds with
      | nil => simp [ofFields]
      | cons kind kinds =>
          have hrest := @ih kinds fun p hp => h p (List.mem_cons_of_mem _ hp)
          cases p with
          | none =>
              rw [ofFields, List.forall_mem_cons]
              exact ⟨concordant_zero kind, hrest⟩
          | some p =>
              rw [ofFields, List.forall_mem_cons]
              exact ⟨h p (by simp), hrest⟩

theorem concordant_ofChange {c : Change} (hc : c.Concordant) : (ofChange c).Concordant := by
  induction hc with
  | @intro c hagrees hbelow ih =>
      refine concordant_iff.2 ?_
      obtain ⟨layout, intent, key, fields⟩ := c
      rw [ofChange]
      exact concordant_ofFields fun p hp =>
        concordant_ofPayload ⟨hagrees p hp, hbelow p hp⟩ (ih p hp)

/-- Whatever accumulator takes in the change, it agrees afterwards if it did before. -/
def KeepsConcord (c : Change) : Prop := ∀ a : Accumulator, a.Concordant → (absorb c a).Concordant

theorem concordant_absorbRecord {c : Change} (hc : c.Concordant) (hkeeps : KeepsConcord c)
    {q : Option Accumulator} (hq : ∀ a ∈ q, a.Concordant) : (absorbRecord c q).Concordant := by
  cases q with
  | none => exact concordant_ofChange hc
  | some a =>
      rw [absorbRecord]
      split
      · exact hkeeps a (hq a rfl)
      · exact concordant_ofChange hc

theorem concordant_merged {c : RecordEntryChange Change} (hagrees : c.Agrees)
    (hc : c.change.Concordant) (hkeeps : KeepsConcord c.change)
    {s : Option (RecordEntryState Accumulator)} (hs : ∀ x ∈ s, x.pending.Concordant) :
    (c.merged s).Agrees ∧ (c.merged s).pending.Concordant := by
  refine ⟨hagrees.merged s, concordant_absorbRecord hc hkeeps ?_⟩
  intro a ha
  obtain ⟨x, hx, rfl⟩ := Option.map_eq_some_iff.1 ha
  exact hs x hx

theorem concordant_absorbPayload {p : Payload Change} (hp : p.Concordant)
    (ih : ∀ d ∈ p.changes, KeepsConcord d) {q : Pending Accumulator} (hq : q.Concordant) :
    (absorbPayload p q).Concordant := by
  cases p with
  | scalar v => simp [absorbPayload]
  | attached v => simp [absorbPayload]
  | nested c =>
      have hc := Payload.concordant_nested.1 hp
      cases q with
      | nested a =>
          have hkeeps := ih c (List.mem_singleton.2 rfl)
          have hrecord := concordant_absorbRecord hc hkeeps (Pending.concordant_nested.1 hq)
          rw [absorbPayload_nested]
          simpa using hrecord
      | _ => simpa [absorbPayload] using concordant_ofChange hc
  | keySet cs =>
      cases q with
      | keySet pending => simp [absorbPayload]
      | _ => simpa only [absorbPayload] using hq
  | valueMap cs =>
      cases q with
      | valueMap pending =>
          rw [absorbPayload, EntryChange.mergeAll, Pending.concordant_valueMap]
          exact Keyed.forall_foldl_merge EntryChange.mergeInto_eq (P := EntryState.Agrees)
            (fun c hc s _ => (hp.agrees c hc).merged s) hq.agrees
      | _ => simpa only [absorbPayload] using hq
  | modelMap cs =>
      cases q with
      | modelMap pending =>
          rw [absorbPayload, absorbEntries_eq_foldl, Pending.concordant_modelMap]
          refine Keyed.forall_foldl_merge RecordEntryChange.mergeEntry_eq
            (P := fun s => s.Agrees ∧ s.pending.Concordant) ?_ (Pending.concordant_modelMap.1 hq)
          intro c hc s hs
          have hmem : c.change ∈ (Payload.modelMap cs).changes := List.mem_map_of_mem hc
          exact concordant_merged (hp.agrees c hc) (hp.below _ hmem) (ih _ hmem)
            fun x hx => (hs x hx).2
      | _ => simpa only [absorbPayload] using hq

theorem concordant_absorbFields {ps : List (Option (Payload Change))}
    (h : ∀ p, some p ∈ ps → ∀ q : Pending Accumulator, q.Concordant →
      (absorbPayload p q).Concordant)
    {qs : List (Pending Accumulator)} (hqs : ∀ q ∈ qs, q.Concordant) :
    ∀ q ∈ absorbFields ps qs, q.Concordant := by
  induction ps generalizing qs with
  | nil => cases qs <;> simpa only [absorbFields] using hqs
  | cons p ps ih =>
      have hrest := fun p hp => h p (List.mem_cons_of_mem _ hp)
      cases qs with
      | nil => cases p <;> simp [absorbFields]
      | cons q qs =>
          rw [List.forall_mem_cons] at hqs
          cases p with
          | none =>
              rw [absorbFields, List.forall_mem_cons]
              exact ⟨hqs.1, ih hrest hqs.2⟩
          | some p =>
              rw [absorbFields, List.forall_mem_cons]
              exact ⟨h p (by simp) q hqs.1, ih hrest hqs.2⟩

theorem keepsConcord {c : Change} (hc : c.Concordant) : KeepsConcord c := by
  induction hc with
  | @intro c hagrees hbelow ih =>
      intro a ha
      rw [absorb_eq]
      refine concordant_iff.2 (concordant_absorbFields ?_ (concordant_iff.1 ha))
      intro p hp q hq
      exact concordant_absorbPayload ⟨hagrees p hp, hbelow p hp⟩ (ih p hp) hq

theorem Concordant.absorbFields {a : Accumulator} (ha : a.Concordant)
    {ps : List (Option (Payload Change))} (hps : ∀ p, some p ∈ ps → p.Concordant) :
    Concordant { a with fields := Accumulator.absorbFields ps a.fields } := by
  refine concordant_iff.2 (concordant_absorbFields ?_ (concordant_iff.1 ha))
  intro p hp q hq
  exact concordant_absorbPayload (hps p hp) (fun d hd => keepsConcord ((hps p hp).below d hd)) hq

/-! ### Building -/

theorem agrees_of_ofState? {e : Key × RecordEntryState Accumulator} (he : e.2.Agrees)
    {c : RecordEntryChange Change} (hc : RecordEntryChange.ofState? e = some c) : c.Agrees := by
  obtain ⟨d, hd, rfl⟩ := Option.map_eq_some_iff.1 hc
  rw [eq_of_build hd]
  exact RecordEntryChange.agrees_iff.2 he

theorem concordant_settle {q : Pending Accumulator} (hq : q.Agrees)
    (ih : ∀ a ∈ q.accumulators, ∀ c, build a = some c → c.Concordant) :
    ∀ p ∈ settle q, p.Concordant := by
  intro p hp
  cases amountsTo_of_mem_settle hp with
  | scalar v => exact Payload.concordant_scalar v
  | attached v => exact Payload.concordant_attached v
  | @nested a c hc =>
      exact Payload.concordant_nested.2 (ih a (by simp [Pending.accumulators]) c hc)
  | keySet => exact Payload.concordant_keySet _
  | valueMap =>
      refine Payload.concordant_valueMap.2 fun c hc => ?_
      obtain ⟨e, he, rfl⟩ := List.mem_map.1 hc
      exact hq e he
  | modelMap =>
      refine Payload.concordant_modelMap.2 fun c hc => ?_
      obtain ⟨e, he, hec, hbuild⟩ := built_of_mem_settleEntries hc
      exact ⟨agrees_of_ofState? (hq e he) hec, ih e.2.pending (List.mem_map_of_mem he) c.change hbuild⟩

/-- What agrees while it is put together agrees when it is built. -/
theorem Concordant.of_build {a : Accumulator} (ha : a.Concordant) {c : Change}
    (hc : build a = some c) : c.Concordant := by
  induction ha generalizing c with
  | @intro a hagrees hbelow ih =>
      obtain rfl := eq_of_build hc
      refine Change.concordant_iff.2 fun p hp => ?_
      rw [settleFields_eq_map] at hp
      obtain ⟨q, hq, hqp⟩ := List.mem_map.1 hp
      exact concordant_settle (hagrees q hq) (fun b hb c hc => ih q hq b hb hc) p hqp

theorem concordant_of_gather {layout : Layout} {intent : Intent} {key : Key}
    {ps : List (Option (Payload Change))} (hps : ∀ p, some p ∈ ps → p.Concordant) {c : Change}
    (hc : gather layout intent key ps = some c) : c.Concordant :=
  ((concordant_start layout intent key).absorbFields hps).of_build hc

end Accumulator

end VersionedRecords
