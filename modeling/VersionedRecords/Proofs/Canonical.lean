import VersionedRecords.Proofs.Element
import VersionedRecords.Proofs.Pairing
import VersionedRecords.Record.Accumulator

/-!
Canonical changes: those that an accumulator gives back as it was given them.

A canonical change has in every collection field the changes of its elements in ascending order,
each element once, and is no update that speaks about no field; so for all changes within it.  What
a comparison finds for a field is not yet in that form, but proper: it has something to say and
speaks about each element once.  Gathering proper payloads gives a canonical change.
-/

namespace VersionedRecords

/-- The changes of sub-records directly below what is carried for one field. -/
def Payload.changes {γ : Type} : Payload γ → List γ
  | .nested c => [c]
  | .modelMap cs => cs.map RecordEntryChange.change
  | _ => []

theorem nonEmpty?_eq_some_iff {C : Type} {cs ds : List C} :
    nonEmpty? cs = some ds ↔ cs ≠ [] ∧ cs = ds := by
  simp [nonEmpty?]

theorem nonEmpty?_eq_none_iff {C : Type} {cs : List C} : nonEmpty? cs = none ↔ cs = [] := by
  simp [nonEmpty?]

namespace Change

theorem sizeOf_change_lt {c d : Change} {p : Payload Change} (hp : some p ∈ c.fields)
    (hd : d ∈ p.changes) : sizeOf d < sizeOf c := by
  obtain ⟨layout, intent, key, fields⟩ := c
  have hfield := List.sizeOf_lt_of_mem hp
  have hchange : sizeOf d < sizeOf p := by
    cases p with
    | nested c =>
        obtain rfl := List.mem_singleton.1 hd
        simp +arith
    | modelMap cs =>
        obtain ⟨e, he, rfl⟩ := List.mem_map.1 hd
        have hentry := List.sizeOf_lt_of_mem he
        obtain ⟨i, k, c⟩ := e
        simp only [RecordEntryChange.mk.sizeOf_spec, Payload.modelMap.sizeOf_spec] at hentry ⊢
        omega
    | _ => simp [Payload.changes] at hd
  simp only [Option.some.sizeOf_spec, Change.mk.sizeOf_spec] at hfield ⊢
  omega

/-- What holds of a change whenever it holds of all changes directly below holds of every change. -/
theorem induction {P : Change → Prop}
    (step : ∀ c, (∀ p, some p ∈ c.fields → ∀ d ∈ p.changes, P d) → P c) (c : Change) : P c := by
  apply step c
  intro p hp d hd
  exact induction step d
termination_by sizeOf c
decreasing_by exact sizeOf_change_lt hp hd

mutual

/-- Nothing in the change is empty, doubled or out of order. -/
def Canonical : Change → Prop
  | ⟨layout, intent, _, fields⟩ =>
    (intent = .update → fields.any Option.isSome = true) ∧ FieldsCanonical layout.kinds fields

def FieldsCanonical : List FieldKind → List (Option (Payload Change)) → Prop
  | [], [] => True
  | _ :: kinds, none :: ps => FieldsCanonical kinds ps
  | kind :: kinds, some p :: ps => PayloadCanonical kind p ∧ FieldsCanonical kinds ps
  | _, _ => False

def PayloadCanonical : FieldKind → Payload Change → Prop
  | .scalar _, .scalar _ => True
  | .attached _, .attached _ => True
  | .nested _, .nested c => Canonical c
  | .keySet _, .keySet cs => cs ≠ [] ∧ Keyed.Sorted MemberChange.key cs
  | .valueMap _ _, .valueMap cs => cs ≠ [] ∧ Keyed.Sorted EntryChange.key cs
  | .modelMap _ _, .modelMap cs =>
    cs ≠ [] ∧ Keyed.Sorted RecordEntryChange.key cs ∧ EntriesCanonical cs
  | _, _ => False

def EntriesCanonical : List (RecordEntryChange Change) → Prop
  | [] => True
  | ⟨_, _, c⟩ :: cs => Canonical c ∧ EntriesCanonical cs

end

theorem fieldsCanonical_iff {kinds : List FieldKind} {ps : List (Option (Payload Change))} :
    FieldsCanonical kinds ps ↔
      List.Forall₂ (fun kind p => ∀ q ∈ p, PayloadCanonical kind q) kinds ps := by
  induction kinds generalizing ps with
  | nil => cases ps <;> simp [FieldsCanonical]
  | cons kind kinds ih =>
      cases ps with
      | nil => simp [FieldsCanonical]
      | cons p ps => cases p <;> simp [FieldsCanonical, ih]

theorem canonical_iff {c : Change} :
    c.Canonical ↔ (c.intent = .update → c.fields.any Option.isSome = true) ∧
      List.Forall₂ (fun kind p => ∀ q ∈ p, PayloadCanonical kind q) c.layout.kinds c.fields := by
  obtain ⟨layout, intent, key, fields⟩ := c
  rw [Canonical, fieldsCanonical_iff]

theorem entriesCanonical_iff {cs : List (RecordEntryChange Change)} :
    EntriesCanonical cs ↔ ∀ c ∈ cs, c.change.Canonical := by
  induction cs with
  | nil => simp [EntriesCanonical]
  | cons c cs ih => simp [EntriesCanonical, ih]

end Change

namespace RecordEntryChange

/-- The entry of an accumulator that begins with the change. -/
def toEntry (c : RecordEntryChange Change) : Key × RecordEntryState Accumulator :=
  (c.key, ⟨.start c.intent, .ofChange c.change⟩)

/-- What an entry of an accumulator amounts to, if anything. -/
def ofState? (e : Key × RecordEntryState Accumulator) : Option (RecordEntryChange Change) :=
  e.2.pending.build.map fun c => ⟨e.2.state.current, e.1, c⟩

theorem key_of_ofState? (e : Key × RecordEntryState Accumulator) (c : RecordEntryChange Change)
    (h : ofState? e = some c) : c.key = e.1 := by
  obtain ⟨d, -, rfl⟩ := Option.map_eq_some_iff.1 h
  rfl

end RecordEntryChange

namespace Accumulator

theorem ofEntries_eq_map (cs : List (RecordEntryChange Change)) :
    ofEntries cs = cs.map RecordEntryChange.toEntry := by
  induction cs with
  | nil => simp [ofEntries]
  | cons c cs ih => simp [ofEntries, ih, RecordEntryChange.toEntry]

theorem settleEntries_eq_filterMap (es : List (Key × RecordEntryState Accumulator)) :
    settleEntries es = es.filterMap RecordEntryChange.ofState? := by
  induction es with
  | nil => simp [settleEntries]
  | cons e es ih =>
      obtain ⟨k, s, a⟩ := e
      cases hbuild : build a with
      | none => simp [settleEntries, RecordEntryChange.ofState?, hbuild, ih]
      | some c => simp [settleEntries, RecordEntryChange.ofState?, hbuild, ih]

theorem built_of_mem_settleEntries {pending : List (Key × RecordEntryState Accumulator)}
    {c : RecordEntryChange Change} (hc : c ∈ settleEntries pending) :
    ∃ e ∈ pending, RecordEntryChange.ofState? e = some c ∧ build e.2.pending = some c.change := by
  rw [settleEntries_eq_filterMap] at hc
  obtain ⟨e, he, hec⟩ := List.mem_filterMap.1 hc
  obtain ⟨d, hd, rfl⟩ := Option.map_eq_some_iff.1 hec
  exact ⟨e, he, hec, hd⟩

/-- For each form of what is pending for a field, the payload that it amounts to. -/
inductive AmountsTo : Pending Accumulator → Payload Change → Prop
  | scalar (v : Datum) : AmountsTo (.scalar (some v)) (.scalar v)
  | attached (v : Option Datum) : AmountsTo (.attached (some v)) (.attached v)
  | nested {a : Accumulator} {c : Change} (hc : build a = some c) :
      AmountsTo (.nested (some a)) (.nested c)
  | keySet {pending : Keyed IntentState} (hne : MemberChange.settle pending ≠ []) :
      AmountsTo (.keySet pending) (.keySet (MemberChange.settle pending))
  | valueMap {pending : Keyed EntryState} (hne : EntryChange.settle pending ≠ []) :
      AmountsTo (.valueMap pending) (.valueMap (EntryChange.settle pending))
  | modelMap {pending : Keyed (RecordEntryState Accumulator)} (hne : settleEntries pending ≠ []) :
      AmountsTo (.modelMap pending) (.modelMap (settleEntries pending))

theorem amountsTo_of_mem_settle {q : Pending Accumulator} {p : Payload Change} (hp : p ∈ settle q) :
    AmountsTo q p := by
  cases q with
  | scalar v =>
      rw [settle] at hp
      obtain ⟨x, rfl, rfl⟩ := Option.map_eq_some_iff.1 hp
      exact .scalar x
  | attached v =>
      rw [settle] at hp
      obtain ⟨x, rfl, rfl⟩ := Option.map_eq_some_iff.1 hp
      exact .attached x
  | nested a =>
      cases a with
      | none => simp [settle] at hp
      | some a =>
          rw [settle] at hp
          obtain ⟨c, hc, rfl⟩ := Option.map_eq_some_iff.1 hp
          exact .nested hc
  | keySet pending =>
      rw [settle] at hp
      obtain ⟨cs, hcs, rfl⟩ := Option.map_eq_some_iff.1 hp
      obtain ⟨hne, rfl⟩ := nonEmpty?_eq_some_iff.1 hcs
      exact .keySet hne
  | valueMap pending =>
      rw [settle] at hp
      obtain ⟨cs, hcs, rfl⟩ := Option.map_eq_some_iff.1 hp
      obtain ⟨hne, rfl⟩ := nonEmpty?_eq_some_iff.1 hcs
      exact .valueMap hne
  | modelMap pending =>
      rw [settle] at hp
      obtain ⟨cs, hcs, rfl⟩ := Option.map_eq_some_iff.1 hp
      obtain ⟨hne, rfl⟩ := nonEmpty?_eq_some_iff.1 hcs
      exact .modelMap hne

/-- Merges the change of one entry into those already merged. -/
def mergeEntry (pending : Keyed (RecordEntryState Accumulator)) (c : RecordEntryChange Change) :
    Keyed (RecordEntryState Accumulator) :=
  absorbEntries [c] pending

theorem absorbEntries_eq_foldl (cs : List (RecordEntryChange Change))
    (pending : Keyed (RecordEntryState Accumulator)) :
    absorbEntries cs pending = cs.foldl mergeEntry pending := by
  induction cs generalizing pending with
  | nil => simp [absorbEntries]
  | cons c cs ih =>
      rw [absorbEntries, ih, List.foldl_cons, mergeEntry, absorbEntries, absorbEntries]

theorem absorbEntries_nil {cs : List (RecordEntryChange Change)}
    (hcs : (cs.map RecordEntryChange.key).Nodup) :
    absorbEntries cs [] = Keyed.ofList (ofEntries cs) := by
  rw [absorbEntries_eq_foldl, ofEntries_eq_map]
  refine Keyed.foldl_merge_eq_ofList ?_ hcs
  intro m c hfresh
  simp [mergeEntry, absorbEntries, hfresh]

theorem settle_zero (kind : FieldKind) : settle (.zero kind) = none := by
  cases kind <;> simp [settle, Pending.zero, MemberChange.settle, EntryChange.settle, nonEmpty?,
    settleEntries]

/-- What a payload comes out as that has gone through an accumulator of its own. -/
def settled? (p : Option (Payload Change)) : Option (Payload Change) :=
  p.bind fun p => settle (ofPayload p)

theorem settleFields_ofFields {kinds : List FieldKind} {ps : List (Option (Payload Change))}
    (h : kinds.length = ps.length) : settleFields (ofFields kinds ps) = ps.map settled? := by
  induction ps generalizing kinds with
  | nil => cases kinds <;> simp [ofFields, settleFields]
  | cons p ps ih =>
      cases kinds with
      | nil => simp at h
      | cons kind kinds =>
          have hrest := ih (Nat.succ.inj h)
          cases p with
          | none => simp [ofFields, settleFields, settle_zero, settled?, hrest]
          | some p => simp [ofFields, settleFields, settled?, hrest]

end Accumulator

namespace Accumulator

theorem ofState?_toEntry {c : RecordEntryChange Change}
    (h : build (ofChange c.change) = some c.change) :
    RecordEntryChange.ofState? c.toEntry = some c := by
  simp [RecordEntryChange.ofState?, RecordEntryChange.toEntry, h, IntentState.start]

theorem settle_ofPayload_of_canonical {kind : FieldKind} {p : Payload Change}
    (ih : ∀ c ∈ p.changes, c.Canonical → build (ofChange c) = some c)
    (h : Change.PayloadCanonical kind p) : settle (ofPayload p) = some p := by
  cases p with
  | scalar v => simp [ofPayload, settle]
  | attached v => simp [ofPayload, settle]
  | nested c =>
      have hc : c.Canonical := by
        cases kind <;> simp only [Change.PayloadCanonical] at h
        exact h
      simp [ofPayload, settle, ih c (by simp [Payload.changes]) hc]
  | keySet cs =>
      have hcs : cs ≠ [] ∧ Keyed.Sorted MemberChange.key cs := by
        cases kind <;> simp only [Change.PayloadCanonical] at h
        exact h
      simp [ofPayload, settle, MemberChange.settle_collect_of_sorted hcs.2, nonEmpty?, hcs.1]
  | valueMap cs =>
      have hcs : cs ≠ [] ∧ Keyed.Sorted EntryChange.key cs := by
        cases kind <;> simp only [Change.PayloadCanonical] at h
        exact h
      simp [ofPayload, settle, EntryChange.settle_collect_of_sorted hcs.2, nonEmpty?, hcs.1]
  | modelMap cs =>
      obtain ⟨hne, hsorted, hentries⟩ :
          cs ≠ [] ∧ Keyed.Sorted RecordEntryChange.key cs ∧ Change.EntriesCanonical cs := by
        cases kind <;> simp only [Change.PayloadCanonical] at h
        exact h
      have hmap : Keyed.Ascending (cs.map RecordEntryChange.toEntry) :=
        Keyed.sorted_map (fun _ => rfl) hsorted
      have hback :
          (cs.map RecordEntryChange.toEntry).filterMap RecordEntryChange.ofState? = cs := by
        rw [List.filterMap_map]
        refine (List.filterMap_congr ?_).trans List.filterMap_some
        intro c hc
        exact ofState?_toEntry
          (ih _ (List.mem_map_of_mem hc) (Change.entriesCanonical_iff.1 hentries c hc))
      simp [ofPayload, settle, ofEntries_eq_map, Keyed.ofList_eq_self hmap,
        settleEntries_eq_filterMap, hback, nonEmpty?, hne]

/-- An accumulator gives a canonical change back as it was given it. -/
theorem build_ofChange {c : Change} (h : c.Canonical) : build (ofChange c) = some c := by
  induction c using Change.induction with
  | step c ih =>
      obtain ⟨hupdate, hfields⟩ := Change.canonical_iff.1 h
      have hsettled : c.fields.map settled? = c.fields := by
        refine (List.map_congr_left ?_).trans (List.map_id _)
        intro p hp
        cases p with
        | none => rfl
        | some p =>
            obtain ⟨kind, -, hkind⟩ := exists_of_mem_right hfields hp
            exact settle_ofPayload_of_canonical (ih p hp) (hkind p rfl)
      obtain ⟨layout, intent, key, fields⟩ := c
      dsimp only at hupdate hfields hsettled
      have hnot : ¬(intent = .update ∧ fields.any Option.isSome = false) := by
        rintro ⟨hintent, hnone⟩
        simp [hupdate hintent] at hnone
      rw [ofChange, build, settleFields_ofFields hfields.length_eq, hsettled]
      exact if_neg hnot

end Accumulator

namespace RecordEntryChange

/-- The changes of a map in ascending order of their keys, as an accumulator gives them back. -/
def sorted (cs : List (RecordEntryChange Change)) : List (RecordEntryChange Change) :=
  Accumulator.settleEntries (Keyed.ofList (Accumulator.ofEntries cs))

/-- What ascending entries amount to is told in ascending order. -/
theorem sorted_ofStates {es : Keyed (RecordEntryState Accumulator)} (hes : Keyed.Ascending es) :
    Keyed.Sorted key (es.filterMap ofState?) :=
  Keyed.sorted_filterMap key_of_ofState? hes

theorem sorted_sorted (cs : List (RecordEntryChange Change)) : Keyed.Sorted key (sorted cs) := by
  rw [sorted, Accumulator.settleEntries_eq_filterMap]
  exact sorted_ofStates (Keyed.ascending_ofList _)

/-- Sorting a table of canonical changes gives the same table. -/
theorem tabulates_sorted {f : Key → Option (RecordEntryChange Change)}
    {cs : List (RecordEntryChange Change)} (h : Keyed.Tabulates key f cs)
    (hcs : ∀ c ∈ cs, c.change.Canonical) : Keyed.Tabulates key f (sorted cs) := by
  have hentries : Keyed.Tabulates Prod.fst (fun k => (f k).map toEntry)
      (Keyed.ofList (cs.map toEntry)) := (h.map toEntry fun _ => rfl).ofList
  have hread := hentries.filterMap fun e _ => key_of_ofState? e
  have hid : (fun k => ((f k).map toEntry).bind ofState?) = f := by
    funext k
    cases hf : f k with
    | none => rfl
    | some c =>
        have hc := hcs c ((h.mem_iff k c).1 hf).1
        exact Accumulator.ofState?_toEntry (Accumulator.build_ofChange hc)
  rw [hid] at hread
  rwa [sorted, Accumulator.settleEntries_eq_filterMap, Accumulator.ofEntries_eq_map]

theorem mem_sorted_iff {cs : List (RecordEntryChange Change)} (hnodup : (cs.map key).Nodup)
    (hcs : ∀ c ∈ cs, c.change.Canonical) {c : RecordEntryChange Change} :
    c ∈ sorted cs ↔ c ∈ cs := by
  have htable := Keyed.Tabulates.of_nodup hnodup
  have hsorted := (tabulates_sorted htable hcs).mem_iff c.key c
  rw [htable.mem_iff] at hsorted
  simpa using hsorted.symm

end RecordEntryChange

/-! ### Proper payloads -/

namespace Payload

/-- What is carried for a field of the kind has something to say, each thing once, and the changes
of sub-records in it are canonical. -/
def Proper : FieldKind → Payload Change → Prop
  | .scalar _, .scalar _ => True
  | .attached _, .attached _ => True
  | .nested _, .nested c => c.Canonical
  | .keySet _, .keySet cs => cs ≠ [] ∧ (cs.map MemberChange.key).Nodup
  | .valueMap _ _, .valueMap cs => cs ≠ [] ∧ (cs.map EntryChange.key).Nodup
  | .modelMap _ _, .modelMap cs =>
    cs ≠ [] ∧ (cs.map RecordEntryChange.key).Nodup ∧ ∀ c ∈ cs, c.change.Canonical
  | _, _ => False

/-- Merging a proper payload into nothing amounts to beginning with it. -/
theorem absorbPayload_zero {kind : FieldKind} {p : Payload Change} (h : p.Proper kind) :
    Accumulator.absorbPayload p (.zero kind) = Accumulator.ofPayload p := by
  cases kind <;> cases p <;> simp only [Proper] at h
  · simp [Accumulator.absorbPayload, Accumulator.ofPayload]
  · simp [Accumulator.absorbPayload, Accumulator.ofPayload]
  · simp [Accumulator.absorbPayload, Accumulator.ofPayload, Pending.zero]
  · simp [Accumulator.absorbPayload, Accumulator.ofPayload, Pending.zero,
      MemberChange.mergeAll_nil h.2]
  · simp [Accumulator.absorbPayload, Accumulator.ofPayload, Pending.zero,
      EntryChange.mergeAll_nil h.2]
  · simp [Accumulator.absorbPayload, Accumulator.ofPayload, Pending.zero,
      Accumulator.absorbEntries_nil h.2.1]

/-- What is carried for a field with the changes of the elements in ascending order. -/
def sorted : Payload Change → Payload Change
  | .keySet cs => .keySet (MemberChange.settle (MemberChange.collect cs))
  | .valueMap cs => .valueMap (EntryChange.settle (EntryChange.collect cs))
  | .modelMap cs => .modelMap (RecordEntryChange.sorted cs)
  | p => p

theorem canonical_sorted {kind : FieldKind} {p : Payload Change} (h : p.Proper kind) :
    Change.PayloadCanonical kind p.sorted := by
  cases kind <;> cases p <;> simp only [Proper] at h
  · trivial
  · trivial
  · exact h
  · obtain ⟨hne, hnodup⟩ := h
    have htable := Keyed.Tabulates.of_nodup hnodup
    refine ⟨?_, MemberChange.sorted_settle (Keyed.ascending_ofList _)⟩
    rwa [Ne, (MemberChange.tabulates_settle_collect htable).eq_nil_iff, ← htable.eq_nil_iff]
  · obtain ⟨hne, hnodup⟩ := h
    have htable := Keyed.Tabulates.of_nodup hnodup
    refine ⟨?_, EntryChange.sorted_settle (Keyed.ascending_ofList _)⟩
    rwa [Ne, (EntryChange.tabulates_settle_collect htable).eq_nil_iff, ← htable.eq_nil_iff]
  · obtain ⟨hne, hnodup, hcs⟩ := h
    have htable := Keyed.Tabulates.of_nodup hnodup
    have hsorted := RecordEntryChange.tabulates_sorted htable hcs
    refine ⟨?_, RecordEntryChange.sorted_sorted _, Change.entriesCanonical_iff.2 ?_⟩
    · rwa [Ne, hsorted.eq_nil_iff, ← htable.eq_nil_iff]
    · intro c hc
      have hf := (hsorted.mem_iff c.key c).2 ⟨hc, rfl⟩
      exact hcs c ((htable.mem_iff c.key c).1 hf).1

theorem settle_ofPayload_of_proper {kind : FieldKind} {p : Payload Change} (h : p.Proper kind) :
    Accumulator.settle (Accumulator.ofPayload p) = some p.sorted := by
  have hsorted := canonical_sorted h
  cases kind <;> cases p <;> simp only [Proper] at h <;>
    simp only [sorted, Change.PayloadCanonical] at hsorted
  · simp [Accumulator.ofPayload, Accumulator.settle, sorted]
  · simp [Accumulator.ofPayload, Accumulator.settle, sorted]
  · simp [Accumulator.ofPayload, Accumulator.settle, sorted, Accumulator.build_ofChange h]
  · simp [Accumulator.ofPayload, Accumulator.settle, sorted, nonEmpty?, hsorted.1]
  · simp [Accumulator.ofPayload, Accumulator.settle, sorted, nonEmpty?, hsorted.1]
  · simp only [RecordEntryChange.sorted] at hsorted
    simp [Accumulator.ofPayload, Accumulator.settle, sorted, RecordEntryChange.sorted, nonEmpty?,
      hsorted.1]

end Payload

/-! ### Gathering -/

namespace Accumulator

/-- Every payload is proper for the kind of its field. -/
def ProperFields (kinds : List FieldKind) (ps : List (Option (Payload Change))) : Prop :=
  List.Forall₂ (fun kind p => ∀ q ∈ p, q.Proper kind) kinds ps

theorem absorbFields_zeros {kinds : List FieldKind} {ps : List (Option (Payload Change))}
    (h : ProperFields kinds ps) : absorbFields ps (kinds.map Pending.zero) = ofFields kinds ps := by
  induction h with
  | nil => simp [absorbFields, ofFields]
  | @cons kind p kinds ps hp hrest ih =>
      cases p with
      | none => simp [absorbFields, ofFields, ih]
      | some p => simp [absorbFields, ofFields, ih, Payload.absorbPayload_zero (hp p rfl)]

theorem map_settled? {kinds : List FieldKind} {ps : List (Option (Payload Change))}
    (h : ProperFields kinds ps) : ps.map settled? = ps.map (Option.map Payload.sorted) := by
  refine List.map_congr_left fun p hp => ?_
  cases p with
  | none => rfl
  | some p =>
      obtain ⟨kind, -, hkind⟩ := exists_of_mem_right h hp
      exact Payload.settle_ofPayload_of_proper (hkind p rfl)

theorem any_isSome_map_sorted (ps : List (Option (Payload Change))) :
    (ps.map (Option.map Payload.sorted)).any Option.isSome = ps.any Option.isSome := by
  simp [Function.comp_def]

/-- Gathering proper payloads puts the changes of elements in order and does nothing else. -/
theorem gather_eq {layout : Layout} {ps : List (Option (Payload Change))}
    (h : ProperFields layout.kinds ps) (intent : Intent) (key : Key) :
    gather layout intent key ps =
      if intent = .update ∧ ps.any Option.isSome = false then none
      else some ⟨layout, intent, key, ps.map (Option.map Payload.sorted)⟩ := by
  rw [gather, start, absorbFields_zeros h, build, settleFields_ofFields h.length_eq,
    map_settled? h, any_isSome_map_sorted]
  rfl

theorem canonical_of_gather {layout : Layout} {ps : List (Option (Payload Change))}
    (h : ProperFields layout.kinds ps) {intent : Intent} {key : Key} {c : Change}
    (hc : gather layout intent key ps = some c) : c.Canonical := by
  rw [gather_eq h] at hc
  split at hc
  · cases hc
  · next hnot =>
    cases hc
    refine Change.canonical_iff.2 ⟨?_, ?_⟩
    · rintro rfl
      rw [any_isSome_map_sorted, ← Bool.not_eq_false]
      exact fun hnone => hnot ⟨rfl, hnone⟩
    · refine List.forall₂_map_right_iff.2 (h.imp ?_)
      intro kind p hp q hq
      obtain ⟨q', hq', rfl⟩ := Option.map_eq_some_iff.1 hq
      exact Payload.canonical_sorted (hp q' hq')

end Accumulator

end VersionedRecords
