import VersionedRecords.Proofs.DraftDifference
import VersionedRecords.Proofs.Orderly

/-!
The changes that can be come by.

A change is found by a comparison, told by a version or by a draft, built by an accumulator into
which anything may have been merged, or lies below such a change.  All these changes are canonical.
So an accumulator that begins with one of them gives it back unchanged, and to begin with what it
carries for a field is to merge that into nothing.
-/

namespace VersionedRecords

variable {models : String → Layout}

/-! ### What comparing drafts finds -/

theorem Snapshot.canonical_of_teardown {s : Snapshot} (hs : s.Conforms models) {c : Change}
    (hc : s.teardown = some c) : c.Canonical := by
  obtain ⟨c', hc', hteardown⟩ := exists_teardown hs
  rw [hc] at hc'
  cases hc'
  exact hteardown.canonical

theorem Snapshot.canonical_of_bind_teardown {r : Option Snapshot}
    (hr : ∀ t ∈ r, t.Conforms models) {c : Change} (hc : r.bind teardown = some c) :
    c.Canonical := by
  obtain ⟨s, hs, hsc⟩ := Option.bind_eq_some_iff.1 hc
  exact canonical_of_teardown (hr s hs) hsc

namespace Draft

/-- Whatever conforming values the draft is compared with, a change that is found is canonical. -/
def FindsCanonical (models : String → Layout) (d : Draft) : Prop :=
  ∀ intent base, List.Forall₂ (Snapshot.ValueConforms models) d.layout.kinds base →
    ∀ c, d.diffFrom intent base = some c → c.Canonical

theorem canonical_of_changeFrom? {r : Option Snapshot} (hr : ∀ t ∈ r, t.Conforms models)
    {d : Draft} (hd : d.FindsCanonical models) {c : Change} (hc : changeFrom? r d = some c) :
    c.Canonical := by
  have hzeros := @Snapshot.forall₂_conforms_zeros models d.layout
  cases r with
  | none => exact hd .add _ hzeros c hc
  | some r =>
      rw [changeFrom?] at hc
      split at hc
      · next hidentity =>
        have hlayout : r.layout = d.layout := congrArg Identity.layout hidentity
        exact hd .update _ (hlayout ▸ Snapshot.conforms_iff.1 (hr r rfl)) c hc
      · exact hd .add _ hzeros c hc

theorem changeFrom?_of_entryDiff? {reference : Keyed Snapshot} {e : Key × Draft}
    {c : RecordEntryChange Change} (hc : entryDiff? reference e = some c) :
    changeFrom? (Keyed.find? e.1 reference) e.2 = some c.change := by
  rw [entryDiff?] at hc
  split at hc
  · cases hc
  · cases hfind : Keyed.find? e.1 reference with
    | none =>
        rw [hfind] at hc
        obtain ⟨d, hd, rfl⟩ := Option.map_eq_some_iff.1 hc
        exact hd
    | some r =>
        rw [hfind] at hc
        dsimp only at hc
        rw [changeFrom?]
        split at hc <;> obtain ⟨d, hd, rfl⟩ := Option.map_eq_some_iff.1 hc
        · next hidentity => rwa [if_pos hidentity]
        · next hidentity => rwa [if_neg hidentity]

theorem canonical_of_mem_betweenDrafts {es : Keyed Snapshot} {es' : Keyed Draft}
    (hes : Keyed.Ascending es) (hconforms : ∀ e ∈ es, e.2.Conforms models)
    (hfinds : ∀ e ∈ es', e.2.FindsCanonical models) {c : RecordEntryChange Change}
    (hc : c ∈ RecordEntryChange.betweenDrafts es es') : c.change.Canonical := by
  rw [RecordEntryChange.betweenDrafts, Snapshot.teardownEntries_eq_filterMap,
    diffEntries_eq_filterMap, List.mem_append] at hc
  rcases hc with hc | hc
  · obtain ⟨e, he, hec⟩ := List.mem_filterMap.1 hc
    exact Snapshot.canonical_of_entryTeardown? (hconforms e (List.mem_filter.1 he).1) hec
  · obtain ⟨e, he, hec⟩ := List.mem_filterMap.1 hc
    refine canonical_of_changeFrom? ?_ (hfinds e he) (changeFrom?_of_entryDiff? hec)
    intro r hfind
    exact hconforms (e.1, r) ((Keyed.mem_iff_find? hes e.1 r).2 hfind)

theorem offers_diffWorking {kind : FieldKind} {r : Value Snapshot} {w : Working Draft}
    (hr : Snapshot.ValueConforms models kind r) (hw : WorkingCoheres models kind w)
    (ih : ∀ d ∈ w.drafts, d.Coherent models → d.FindsCanonical models) :
    ∀ p ∈ diffWorking r w, p.Offers kind := by
  intro p hp
  cases kind with
  | scalar t =>
      obtain ⟨x, rfl, -⟩ := Snapshot.valueConforms_scalar.1 hr
      obtain ⟨y, rfl, -⟩ := workingCoheres_scalar.1 hw
      rw [diffWorking] at hp
      split at hp <;> cases hp
      exact ⟨trivial, by simp [Payload.changes]⟩
  | attached t =>
      obtain ⟨x, rfl, -⟩ := Snapshot.valueConforms_attached.1 hr
      obtain ⟨y, rfl, -⟩ := workingCoheres_attached.1 hw
      rw [diffWorking] at hp
      split at hp <;> cases hp
      exact ⟨trivial, by simp [Payload.changes]⟩
  | nested m =>
      obtain ⟨x, rfl, hx⟩ := Snapshot.valueConforms_nested.1 hr
      obtain ⟨d, rfl, hd⟩ := workingCoheres_nested.1 hw
      have hoffers : ∀ c : Change, c.Canonical → (Payload.nested c).Offers (.nested m) :=
        fun c hc => ⟨trivial, by simpa [Payload.changes] using hc⟩
      cases d with
      | none =>
          cases x with
          | none => simp [diffWorking] at hp
          | some s =>
              rw [diffWorking] at hp
              obtain ⟨c, hc, rfl⟩ := Option.map_eq_some_iff.1 hp
              exact hoffers c (Snapshot.canonical_of_teardown (hx s rfl).2 hc)
      | some d =>
          rw [diffWorking_nested_some] at hp
          obtain ⟨c, hc, rfl⟩ := Option.map_eq_some_iff.1 hp
          refine hoffers c ?_
          split at hc
          · exact Snapshot.canonical_of_bind_teardown (fun t ht => (hx t ht).2) hc
          · refine canonical_of_changeFrom? (fun t ht => (hx t ht).2) ?_ hc
            exact ih d (by simp [Working.drafts]) (hd d rfl).2
  | keySet k =>
      obtain ⟨o, x, rfl, -⟩ := Snapshot.valueConforms_keySet.1 hr
      obtain ⟨y, rfl, -⟩ := workingCoheres_keySet.1 hw
      rw [diffWorking] at hp
      obtain ⟨cs, -, rfl⟩ := Option.map_eq_some_iff.1 hp
      exact ⟨trivial, by simp [Payload.changes]⟩
  | valueMap k t =>
      obtain ⟨o, x, rfl, -⟩ := Snapshot.valueConforms_valueMap.1 hr
      obtain ⟨y, rfl, -⟩ := workingCoheres_valueMap.1 hw
      rw [diffWorking] at hp
      obtain ⟨cs, -, rfl⟩ := Option.map_eq_some_iff.1 hp
      exact ⟨trivial, by simp [Payload.changes]⟩
  | modelMap k m =>
      obtain ⟨o, x, rfl, hx, hxe⟩ := Snapshot.valueConforms_modelMap.1 hr
      obtain ⟨y, rfl, -, hye⟩ := workingCoheres_modelMap.1 hw
      rw [diffWorking] at hp
      obtain ⟨cs, hcs, rfl⟩ := Option.map_eq_some_iff.1 hp
      obtain ⟨-, rfl⟩ := nonEmpty?_eq_some_iff.1 hcs
      refine ⟨trivial, ?_⟩
      intro c hc
      obtain ⟨e, he, rfl⟩ := List.mem_map.1 hc
      refine canonical_of_mem_betweenDrafts hx (fun e he => (hxe e he).2) ?_ he
      exact fun e he => ih e.2 (List.mem_map_of_mem he) (hye e he).2

theorem offers_diffSlot {kind : FieldKind} {r : Value Snapshot} {s : Slot Snapshot Draft}
    (hr : Snapshot.ValueConforms models kind r) (hs : SlotCoheres models kind s)
    (ih : ∀ w, s = .touched w → ∀ d ∈ w.drafts, d.Coherent models → d.FindsCanonical models) :
    ∀ p ∈ diffSlot r s, p.Offers kind := by
  cases s with
  | deferred v =>
      intro p hp
      refine .of_proper (Snapshot.proper_diffValue hr hs ?_ p hp)
      exact fun t _ ht => Snapshot.diffsProperly_of_conforms ht
  | touched w => exact offers_diffWorking hr hs (ih w rfl)

/-- What comparing a coherent draft with conforming values offers for its fields. -/
theorem offers_diffSlots {d : Draft} (hd : d.Coherent models)
    (ih : ∀ w, Slot.touched w ∈ d.slots → ∀ e ∈ w.drafts, e.Coherent models →
      e.FindsCanonical models) {base : List (Value Snapshot)}
    (hbase : List.Forall₂ (Snapshot.ValueConforms models) d.layout.kinds base) :
    List.Forall₂ (fun kind p => ∀ q ∈ p, q.Offers kind) d.layout.kinds
      (diffSlots base d.slots) := by
  rw [diffSlots_eq_zipWith]
  refine forall₂_zipWith hbase (coherent_iff.1 hd).2 ?_
  intro kind r s _ hs hconforms hcoheres
  refine offers_diffSlot hconforms hcoheres ?_
  rintro w rfl e he
  exact ih w hs e he

theorem findsCanonical_of_coherent {d : Draft} (hd : d.Coherent models) :
    d.FindsCanonical models := by
  induction d using Draft.induction with
  | step d ih =>
      intro intent base hbase c hc
      have hoffers := offers_diffSlots hd ih hbase
      rw [diffFrom_eq, ← diffSlots_eq_zipWith] at hc
      exact Accumulator.canonical_of_gather_of_offers hoffers hc

theorem canonical_of_diffAgainst {d : Draft} (hd : d.Coherent models) {r : Snapshot}
    (hr : r.Conforms models) (hlayout : r.layout = d.layout) {intent : Intent} {c : Change}
    (hc : d.diffAgainst intent r = .ok (some c)) : c.Canonical := by
  have hbase := hlayout ▸ Snapshot.conforms_iff.1 hr
  rw [diffAgainst, requireSameKey] at hc
  split at hc
  · exact findsCanonical_of_coherent hd intent _ hbase c (Except.ok.inj hc)
  · cases hc

theorem canonical_of_diff {d : Draft} (hd : d.Coherent models) {c : Change}
    (hc : d.diff = some c) : c.Canonical := by
  have hgrounded := (coherent_iff.1 hd).1
  rw [diff] at hc
  cases hreference : d.reference with
  | none =>
      rw [hreference] at hc
      exact findsCanonical_of_coherent hd _ _ (Snapshot.forall₂_conforms_zeros d.layout) c hc
  | some r =>
      rw [hreference] at hc hgrounded
      have hlayout : r.layout = d.layout := congrArg Identity.layout hgrounded.1
      have hbase := Snapshot.conforms_iff.1 hgrounded.2.1
      exact findsCanonical_of_coherent hd _ _ (hlayout ▸ hbase) c hc

theorem canonical_of_toChange {d : Draft} (hd : d.Coherent models) {intent : Intent} {c : Change}
    (hc : d.toChange intent = some c) : c.Canonical := by
  have hfull : ∀ intent, d.diffFrom intent d.layout.zeros = some c → c.Canonical := fun intent =>
    findsCanonical_of_coherent hd intent _ (Snapshot.forall₂_conforms_zeros d.layout) c
  cases intent with
  | add => exact hfull .add hc
  | update => exact hfull .update hc
  | delete =>
      have hgrounded := (coherent_iff.1 hd).1
      rw [toChange] at hc
      split at hc
      · next r _ hreference =>
        rw [hreference] at hgrounded
        exact Snapshot.canonical_of_teardown hgrounded.2.1 hc
      · cases hbuild : d.build 0 with
        | none =>
            rw [hbuild, Option.getD_none, buildEmpty] at hc
            have hempty := @Snapshot.conforms_empty models d.layout d.key ⟨0, []⟩
            exact Snapshot.canonical_of_teardown hempty hc
        | some m =>
            rw [hbuild, Option.getD_some] at hc
            exact Snapshot.canonical_of_teardown (of_buildAt hd hbuild).2 hc

end Draft

namespace Snapshot

theorem canonical_of_toChange {s : Snapshot} (hs : s.Conforms models) {intent : Intent}
    {c : Change} (hc : s.toChange intent = some c) : c.Canonical := by
  have hproper := diffsProperly_of_conforms hs
  have hzeros := @forall₂_conforms_zeros models s.layout
  cases intent with
  | add => exact hproper.canonical hzeros hc
  | update => exact hproper.canonical hzeros hc
  | delete => exact canonical_of_teardown hs hc

theorem fieldChange?_eq (r s : Option Snapshot) :
    fieldChange? r s = s.elim (r.bind teardown) (changeFrom? r) := by
  rw [fieldChange?]
  cases s with
  | none =>
      cases r with
      | none => rw [diffValue] <;> simp
      | some r =>
          rw [diffValue]
          cases hteardown : r.teardown <;> simp [hteardown]
  | some s =>
      rw [diffValue_nested_some]
      cases hchange : changeFrom? r s <;> simp [hchange]

theorem canonical_of_fieldChange? {r s : Option Snapshot} (hr : ∀ t ∈ r, t.Conforms models)
    (hs : ∀ t ∈ s, t.Conforms models) {c : Change} (hc : fieldChange? r s = some c) :
    c.Canonical := by
  rw [fieldChange?_eq] at hc
  cases s with
  | none => exact canonical_of_bind_teardown hr hc
  | some s => exact canonical_of_changeFrom? hr (diffsProperly_of_conforms (hs s rfl)) hc

end Snapshot

namespace Draft

theorem fieldChange?_eq (r : Option Snapshot) (d : Option Draft) :
    fieldChange? r d = d.elim (r.bind Snapshot.teardown) fun d =>
      if d.isDeleted then r.bind Snapshot.teardown else changeFrom? r d := by
  rw [fieldChange?]
  cases d with
  | none =>
      cases r with
      | none => rw [diffWorking] <;> simp
      | some r =>
          rw [diffWorking]
          cases hteardown : r.teardown <;> simp [hteardown]
  | some d =>
      rw [diffWorking_nested_some, Option.elim_some]
      generalize (if d.isDeleted then r.bind Snapshot.teardown else changeFrom? r d) = o
      cases o <;> rfl

theorem canonical_of_fieldChange? {r : Option Snapshot} {d : Option Draft}
    (hr : ∀ t ∈ r, t.Conforms models) (hd : ∀ e ∈ d, e.Coherent models) {c : Change}
    (hc : fieldChange? r d = some c) : c.Canonical := by
  rw [fieldChange?_eq] at hc
  cases d with
  | none => exact Snapshot.canonical_of_bind_teardown hr hc
  | some d =>
      rw [Option.elim_some] at hc
      split at hc
      · exact Snapshot.canonical_of_bind_teardown hr hc
      · exact canonical_of_changeFrom? hr (findsCanonical_of_coherent (hd d rfl)) hc

end Draft

/-! ### Obtaining changes -/

mutual

/-- The accumulators that can be come by.  What is given for a single field may be anything that the
field can hold. -/
inductive Accumulator.Obtainable (models : String → Layout) : Accumulator → Prop
  | start (layout : Layout) (intent : Intent) (key : Key) :
      Accumulator.Obtainable models (.start layout intent key)
  | ofChange {c : Change} (hc : Change.Obtainable models c) :
      Accumulator.Obtainable models (.ofChange c)
  | add {a a' : Accumulator} {c : Change} (ha : Accumulator.Obtainable models a)
      (hc : Change.Obtainable models c) (hlayout : c.layout = a.layout) (hadd : a.add c = .ok a') :
      Accumulator.Obtainable models a'
  | addField {a : Accumulator} {i : Nat} {kind : FieldKind} {p : Payload Change}
      (ha : Accumulator.Obtainable models a) (hkind : a.layout.kinds[i]? = some kind)
      (hp : p.IsOf kind) (hchanges : ∀ c ∈ p.changes, Change.Obtainable models c) :
      Accumulator.Obtainable models (a.addField i p)
  | setIntent {a : Accumulator} (ha : Accumulator.Obtainable models a) (i : Intent) :
      Accumulator.Obtainable models (a.setIntent i)
  | resetIntent {a : Accumulator} (ha : Accumulator.Obtainable models a) :
      Accumulator.Obtainable models a.resetIntent
  | diffInto {a a' : Accumulator} {d : Draft} {r : Snapshot}
      (ha : Accumulator.Obtainable models a) (hd : d.Reachable models) (hr : r.Conforms models)
      (hdlayout : d.layout = a.layout) (hrlayout : r.layout = a.layout)
      (hinto : d.diffInto a r = .ok a') : Accumulator.Obtainable models a'

/-- The accumulators of entries that can be come by. -/
inductive RecordEntryAccumulator.Obtainable (models : String → Layout) :
    RecordEntryAccumulator → Prop
  | ofParts {a : Accumulator} (ha : Accumulator.Obtainable models a) (intent : Intent)
      (key : Key) : RecordEntryAccumulator.Obtainable models ⟨key, .start intent, a⟩
  | ofChange {e : RecordEntryChange Change} (he : Change.Obtainable models e.change) :
      RecordEntryAccumulator.Obtainable models (.ofChange e)
  | add {a a' : RecordEntryAccumulator} {e : RecordEntryChange Change}
      (ha : RecordEntryAccumulator.Obtainable models a) (he : Change.Obtainable models e.change)
      (hadd : a.add e = .ok a') : RecordEntryAccumulator.Obtainable models a'
  | setIntent {a : RecordEntryAccumulator} (ha : RecordEntryAccumulator.Obtainable models a)
      (i : Intent) : RecordEntryAccumulator.Obtainable models (a.setIntent i)
  | resetIntent {a : RecordEntryAccumulator} (ha : RecordEntryAccumulator.Obtainable models a) :
      RecordEntryAccumulator.Obtainable models a.resetIntent

/-- The changes that can be come by. -/
inductive Change.Obtainable (models : String → Layout) : Change → Prop
  | build {a : Accumulator} {c : Change} (ha : Accumulator.Obtainable models a)
      (hc : a.build = some c) : Change.Obtainable models c
  | buildEntry {a : RecordEntryAccumulator} {e : RecordEntryChange Change}
      (ha : RecordEntryAccumulator.Obtainable models a) (he : a.build = some e) :
      Change.Obtainable models e.change
  | diff {d : Draft} {c : Change} (hd : d.Reachable models) (hc : d.diff = some c) :
      Change.Obtainable models c
  | diffAgainst {d : Draft} {r : Snapshot} {intent : Intent} {c : Change}
      (hd : d.Reachable models) (hr : r.Conforms models) (hlayout : r.layout = d.layout)
      (hc : d.diffAgainst intent r = .ok (some c)) : Change.Obtainable models c
  | ofDraft {d : Draft} {intent : Intent} {c : Change} (hd : d.Reachable models)
      (hc : d.toChange intent = some c) : Change.Obtainable models c
  | ofSnapshot {s : Snapshot} {intent : Intent} {c : Change} (hs : s.Conforms models)
      (hc : s.toChange intent = some c) : Change.Obtainable models c
  | field {r s : Option Snapshot} {c : Change} (hr : ∀ t ∈ r, t.Conforms models)
      (hs : ∀ t ∈ s, t.Conforms models) (hc : Snapshot.fieldChange? r s = some c) :
      Change.Obtainable models c
  | draftField {r : Option Snapshot} {d : Option Draft} {c : Change}
      (hr : ∀ t ∈ r, t.Conforms models) (hd : ∀ e ∈ d, e.Reachable models)
      (hc : Draft.fieldChange? r d = some c) : Change.Obtainable models c
  | between {es es' : Keyed Snapshot} (hes : Keyed.Ascending es)
      (hconforms : ∀ e ∈ es, e.2.Conforms models) (hconforms' : ∀ e ∈ es', e.2.Conforms models)
      {c : RecordEntryChange Change} (hc : c ∈ RecordEntryChange.between es es') :
      Change.Obtainable models c.change
  | betweenDrafts {es : Keyed Snapshot} {es' : Keyed Draft} (hes : Keyed.Ascending es)
      (hconforms : ∀ e ∈ es, e.2.Conforms models) (hd : ∀ e ∈ es', e.2.Reachable models)
      {c : RecordEntryChange Change} (hc : c ∈ RecordEntryChange.betweenDrafts es es') :
      Change.Obtainable models c.change
  | within {c d : Change} {p : Payload Change} (hc : Change.Obtainable models c)
      (hp : some p ∈ c.fields) (hd : d ∈ p.changes) : Change.Obtainable models d

end

namespace Accumulator

theorem eq_absorb_of_add {a a' : Accumulator} {c : Change} (h : a.add c = .ok a') :
    a' = absorb c a := by
  simp only [add, requireSameKey] at h
  split at h <;> cases h
  rfl

theorem eq_of_diffInto {a a' : Accumulator} {d : Draft} {r : Snapshot}
    (h : d.diffInto a r = .ok a') :
    a' = { a with fields := absorbFields (Draft.diffSlots r.fields d.slots) a.fields } := by
  simp only [Draft.diffInto, requireSameKey] at h
  split at h <;> split at h <;> cases h
  rfl

/-- Comparing a coherent draft with a version keeps the accumulator orderly that takes in what is
found. -/
theorem Orderly.diffInto {a a' : Accumulator} {d : Draft} {r : Snapshot} (ha : a.Orderly)
    (hd : d.Coherent models) (hr : r.Conforms models) (hdlayout : d.layout = a.layout)
    (hrlayout : r.layout = a.layout) (hinto : d.diffInto a r = .ok a') : a'.Orderly := by
  have hbase := Snapshot.conforms_iff.1 hr
  rw [hrlayout, ← hdlayout] at hbase
  have hoffers := Draft.offers_diffSlots hd
    (fun w hw e he => Draft.findsCanonical_of_coherent) hbase
  rw [hdlayout] at hoffers
  rw [eq_of_diffInto hinto]
  exact ha.absorbFields hoffers

end Accumulator

theorem RecordEntryAccumulator.orderly_add {a a' : RecordEntryAccumulator}
    {e : RecordEntryChange Change} (ha : a.state.pending.Orderly) (he : e.change.Canonical)
    (hadd : a.add e = .ok a') : a'.state.pending.Orderly := by
  have hrecord := Accumulator.orderly_absorbRecord he (Accumulator.keepsOrder he)
    (q := some a.state.pending) (by simpa using ha)
  simp only [add, requireSameKey] at hadd
  split at hadd <;> cases hadd
  exact hrecord

mutual

theorem Accumulator.Obtainable.orderly {a : Accumulator} (h : a.Obtainable models) : a.Orderly :=
  match h with
  | .start layout intent key => Accumulator.orderly_start layout intent key
  | .ofChange hc => Accumulator.orderly_ofChange hc.canonical
  | .add ha hc hlayout hadd => by
      rw [Accumulator.eq_absorb_of_add hadd]
      exact ha.orderly.absorb hc.canonical hlayout
  | .addField ha hkind hp hchanges =>
      ha.orderly.addField hkind ⟨hp, fun c hc => (hchanges c hc).canonical⟩
  | .setIntent ha _ => ha.orderly.of_state _
  | .resetIntent ha => ha.orderly.of_state _
  | .diffInto ha hd hr hdlayout hrlayout hinto =>
      ha.orderly.diffInto hd.coherent hr hdlayout hrlayout hinto

theorem RecordEntryAccumulator.Obtainable.orderly {a : RecordEntryAccumulator}
    (h : a.Obtainable models) : a.state.pending.Orderly :=
  match h with
  | .ofParts ha _ _ => ha.orderly
  | .ofChange he => Accumulator.orderly_ofChange he.canonical
  | .add ha he hadd => RecordEntryAccumulator.orderly_add ha.orderly he.canonical hadd
  | .setIntent ha _ => ha.orderly
  | .resetIntent ha => ha.orderly

theorem Change.Obtainable.canonical {c : Change} (h : c.Obtainable models) : c.Canonical :=
  match h with
  | .build ha hc => ha.orderly.buildsCanonical _ hc
  | .buildEntry ha he => by
      obtain ⟨c, hc, rfl⟩ := Option.map_eq_some_iff.1 he
      exact ha.orderly.buildsCanonical c hc
  | .diff hd hc => Draft.canonical_of_diff hd.coherent hc
  | .diffAgainst hd hr hlayout hc => Draft.canonical_of_diffAgainst hd.coherent hr hlayout hc
  | .ofDraft hd hc => Draft.canonical_of_toChange hd.coherent hc
  | .ofSnapshot hs hc => Snapshot.canonical_of_toChange hs hc
  | .field hr hs hc => Snapshot.canonical_of_fieldChange? hr hs hc
  | .draftField hr hd hc =>
      Draft.canonical_of_fieldChange? hr (fun e he => (hd e he).coherent) hc
  | .between hes hconforms hconforms' hc =>
      Snapshot.canonical_of_mem_between hes hconforms
        (fun e he => Snapshot.diffsProperly_of_conforms (hconforms' e he)) hc
  | .betweenDrafts hes hconforms hd hc =>
      Draft.canonical_of_mem_betweenDrafts hes hconforms
        (fun e he => Draft.findsCanonical_of_coherent (hd e he).coherent) hc
  | .within hc hp hd => by
      obtain ⟨kind, -, hkind⟩ := exists_of_mem_right hc.canonical.proper hp
      exact (Payload.Offers.of_proper (hkind _ rfl)).canonical _ hd

end

/-- Every change that can be come by is canonical: at every depth the changes of the elements of a
collection are some, in strictly ascending order, and there is no update that speaks about no field.
So an accumulator that begins with the change gives it back, and for each field it is the same to
begin with what is carried and to merge it into nothing. -/
theorem Change.survives_accumulating {c : Change} (hc : c.Obtainable models) :
    c.Canonical ∧ Accumulator.build (.ofChange c) = some c ∧
      ∀ (i : Nat) (kind : FieldKind) (p : Payload Change), c.layout.kinds[i]? = some kind →
        c.fields[i]? = some (some p) →
        Accumulator.ofPayload p = Accumulator.absorbPayload p (.zero kind) := by
  have hcanonical := hc.canonical
  refine ⟨hcanonical, Accumulator.build_ofChange hcanonical, ?_⟩
  intro i kind p hkind hp
  obtain ⟨kind', hkind', hproper⟩ := exists_getElem?_left hcanonical.proper hp
  obtain rfl : kind' = kind := Option.some.inj (hkind'.symm.trans hkind)
  exact (Payload.absorbPayload_zero (hproper p rfl)).symm

/-- What is given for the tags of a profile comes out of order and speaks about one of them twice. -/
def Samples.forged : Accumulator :=
  (Accumulator.start Samples.profile .update (.int 1)).addField 4 <|
    .keySet [⟨.add, .text "b"⟩, ⟨.delete, .text "a"⟩, ⟨.delete, .text "b"⟩]

theorem Change.survives_accumulating_of_forged :
    ∃ c, Samples.forged.build = some c ∧ c.Canonical ∧ Accumulator.build (.ofChange c) = some c ∧
      ∀ p, c.fields[4]? = some (some p) →
        Accumulator.ofPayload p = Accumulator.absorbPayload p (.zero (.keySet .text)) := by
  have hforged : Samples.forged.Obtainable Samples.nodes :=
    .addField (.start Samples.profile .update (.int 1)) rfl trivial
      (by simp [Payload.changes])
  obtain ⟨c, hc⟩ : ∃ c, Samples.forged.build = some c := ⟨_, rfl⟩
  have hlayout : c.layout = Samples.profile := by
    rw [Accumulator.eq_of_build hc]
    rfl
  obtain ⟨hcanonical, hbuild, hfields⟩ := survives_accumulating (.build hforged hc)
  refine ⟨c, hc, hcanonical, hbuild, ?_⟩
  intro p hp
  exact hfields 4 (.keySet .text) p (by rw [hlayout]; rfl) hp

end VersionedRecords
