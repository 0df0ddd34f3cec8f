import VersionedRecords.Proofs.Obtaining

/-!
Comparing a draft with a version straight into an accumulator.

The change that a comparison finds has gone through an accumulator of its own, which brings the
changes of elements into ascending order; comparing into an accumulator that is in use merges them
as they are found, deletions first.  What is found speaks about each element once, so the order does
not matter: whatever has been merged before, the same is pending for every field afterwards.  Only
the intent of the accumulator stays as it is, since no change of the whole record is merged.
-/

namespace VersionedRecords

/-! ### Merging in another order -/

namespace Keyed

variable {C α : Type} {key : C → Key}

/-- Merging the changes of a table into an ascending map gives the same in whatever order the table
is. -/
theorem foldl_merge_congr {merge : Keyed α → C → Keyed α} {merged : C → Option α → α}
    (hmerge : ∀ m c, merge m c = insert (key c) (merged c (find? (key c) m)) m)
    {f : Key → Option C} {cs cs' : List C} (hcs : Tabulates key f cs)
    (hcs' : Tabulates key f cs') {m : Keyed α} (hm : Ascending m) :
    cs.foldl merge m = cs'.foldl merge m := by
  refine ext_find? (ascending_foldl_merge hmerge cs hm) (ascending_foldl_merge hmerge cs' hm) ?_
  intro k
  rw [find?_foldl_merge hmerge hcs, find?_foldl_merge hmerge hcs']

end Keyed

namespace Accumulator

/-- What is pending for a field does not see in which order the elements were spoken about. -/
theorem absorbPayload_sorted {kind : FieldKind} {p : Payload Change} (hp : p.Proper kind)
    {q : Pending Accumulator} (hq : PendingOrderly kind q) :
    absorbPayload p.sorted q = absorbPayload p q := by
  cases kind <;> cases p <;> simp only [Payload.Proper] at hp
  · rfl
  · rfl
  · rfl
  · next k cs =>
    obtain ⟨pending, rfl, hpending⟩ := pendingOrderly_keySet.1 hq
    have htable := Keyed.Tabulates.of_nodup hp.2
    rw [Payload.sorted, absorbPayload, absorbPayload, MemberChange.mergeAll,
      Keyed.foldl_merge_congr MemberChange.mergeInto_eq
        (MemberChange.tabulates_settle_collect htable) htable hpending,
      MemberChange.mergeAll]
  · next k t cs =>
    obtain ⟨pending, rfl, hpending⟩ := pendingOrderly_valueMap.1 hq
    have htable := Keyed.Tabulates.of_nodup hp.2
    rw [Payload.sorted, absorbPayload, absorbPayload, EntryChange.mergeAll,
      Keyed.foldl_merge_congr EntryChange.mergeInto_eq
        (EntryChange.tabulates_settle_collect htable) htable hpending,
      EntryChange.mergeAll]
  · next k m cs =>
    obtain ⟨pending, rfl, hpending, -⟩ := pendingOrderly_modelMap.1 hq
    obtain ⟨-, hnodup, hcanonical⟩ := hp
    have htable := Keyed.Tabulates.of_nodup hnodup
    rw [Payload.sorted, absorbPayload, absorbPayload, absorbEntries_eq_foldl,
      Keyed.foldl_merge_congr RecordEntryChange.mergeEntry_eq
        (RecordEntryChange.tabulates_sorted htable hcanonical) htable hpending,
      absorbEntries_eq_foldl]

theorem absorbFields_map_sorted {kinds : List FieldKind} {ps : List (Option (Payload Change))}
    (hps : ProperFields kinds ps) {qs : List (Pending Accumulator)}
    (hqs : List.Forall₂ PendingOrderly kinds qs) :
    absorbFields (ps.map (Option.map Payload.sorted)) qs = absorbFields ps qs := by
  induction hps generalizing qs with
  | nil => rfl
  | @cons kind p kinds ps hp hps ih =>
      cases hqs with
      | @cons _ q _ qs hq hqs =>
          cases p with
          | none => simp only [List.map_cons, Option.map_none, absorbFields, ih hqs]
          | some p =>
              simp only [List.map_cons, Option.map_some, absorbFields, ih hqs,
                absorbPayload_sorted (hp p rfl) hq]

/-- Merging nothing for any field leaves everything as it is. -/
theorem absorbFields_of_silent {ps : List (Option (Payload Change))}
    (hps : ps.any Option.isSome = false) (qs : List (Pending Accumulator)) :
    absorbFields ps qs = qs := by
  induction ps generalizing qs with
  | nil => cases qs <;> rw [absorbFields] <;> simp
  | cons p ps ih =>
      rw [List.any_cons, Bool.or_eq_false_iff, Option.isSome_eq_false_iff,
        Option.isNone_iff_eq_none] at hps
      obtain ⟨rfl, hps⟩ := hps
      cases qs with
      | nil => rw [absorbFields] <;> simp
      | cons q qs => rw [absorbFields, ih hps]

theorem add_eq {a : Accumulator} {c : Change} (hkey : a.key = c.key) :
    a.add c = .ok (absorb c a) := by
  rw [add, requireSameKey, if_pos hkey]
  rfl

end Accumulator

/-! ### What comparing drafts finds is proper -/

namespace Draft

variable {models : String → Layout}

theorem key_of_entryDiff? (reference : Keyed Snapshot) (e : Key × Draft)
    (c : RecordEntryChange Change) (h : entryDiff? reference e = some c) : c.key = e.1 := by
  rw [entryDiff?] at h
  obtain ⟨-, h⟩ := Option.ite_none_left_eq_some.1 h
  split at h
  · obtain ⟨d, -, rfl⟩ := Option.map_eq_some_iff.1 h
    rfl
  · split at h <;> obtain ⟨d, -, rfl⟩ := Option.map_eq_some_iff.1 h <;> rfl

/-- The entries whose draft is not deleted. -/
def live (es : Keyed Draft) : Keyed Draft := es.filter fun e => !e.2.isDeleted

theorem ascending_live {es : Keyed Draft} (hes : Keyed.Ascending es) :
    Keyed.Ascending (live es) :=
  hes.filter _

theorem find?_live {es : Keyed Draft} (hes : Keyed.Ascending es) (k : Key) :
    Keyed.find? k (live es) = (Keyed.find? k es).filter fun d => !d.isDeleted :=
  Keyed.find?_filter hes _ k

/-- Entries whose draft is deleted count as absent. -/
theorem betweenDrafts_eq_append (es : Keyed Snapshot) {es' : Keyed Draft}
    (hes' : Keyed.Ascending es') :
    RecordEntryChange.betweenDrafts es es' =
      (es.filter fun e => !Keyed.has e.1 (live es')).filterMap Snapshot.entryTeardown?
        ++ (live es').filterMap (entryDiff? es) := by
  have hhas : ∀ k, Keyed.has k (live es') = (Keyed.find? k es').any fun d => !d.isDeleted := by
    intro k
    rw [Keyed.has, find?_live hes']
    cases Keyed.find? k es' with
    | none => rfl
    | some d => cases hd : d.isDeleted <;> simp [hd]
  have hthere : (live es').filterMap (entryDiff? es) = diffEntries es es' := by
    rw [diffEntries_eq_filterMap, live, List.filterMap_filter]
    refine List.filterMap_congr fun e _ => ?_
    rw [entryDiff?]
    cases e.2.isDeleted <;> rfl
  rw [RecordEntryChange.betweenDrafts, Snapshot.teardownEntries_eq_filterMap, hthere]
  simp only [hhas]

theorem nodup_betweenDrafts {es : Keyed Snapshot} {es' : Keyed Draft} (hes : Keyed.Ascending es)
    (hes' : Keyed.Ascending es') :
    ((RecordEntryChange.betweenDrafts es es').map RecordEntryChange.key).Nodup := by
  rw [betweenDrafts_eq_append es hes']
  exact (Keyed.tabulates_append hes (ascending_live hes') Snapshot.entryTeardown? (entryDiff? es)
    (fun e _ => Snapshot.key_of_entryTeardown? e) fun e _ => key_of_entryDiff? es e).nodup

theorem proper_diffWorking {kind : FieldKind} {r : Value Snapshot} {w : Working Draft}
    (hr : Snapshot.ValueConforms models kind r) (hw : WorkingCoheres models kind w) :
    ∀ p ∈ diffWorking r w, p.Proper kind := by
  intro p hp
  obtain ⟨hof, hcanonical⟩ :=
    offers_diffWorking hr hw (fun _ _ hd => findsCanonical_of_coherent hd) p hp
  cases kind with
  | keySet k =>
      obtain ⟨o, ms, rfl, hms⟩ := Snapshot.valueConforms_keySet.1 hr
      obtain ⟨ms', rfl, hms'⟩ := workingCoheres_keySet.1 hw
      rw [diffWorking] at hp
      obtain ⟨cs, hcs, rfl⟩ := Option.map_eq_some_iff.1 hp
      obtain ⟨hne, rfl⟩ := nonEmpty?_eq_some_iff.1 hcs
      exact ⟨hne, (MemberChange.tabulates_between hms hms').nodup⟩
  | valueMap k t =>
      obtain ⟨o, es, rfl, hes, -⟩ := Snapshot.valueConforms_valueMap.1 hr
      obtain ⟨es', rfl, hes', -⟩ := workingCoheres_valueMap.1 hw
      rw [diffWorking] at hp
      obtain ⟨cs, hcs, rfl⟩ := Option.map_eq_some_iff.1 hp
      obtain ⟨hne, rfl⟩ := nonEmpty?_eq_some_iff.1 hcs
      exact ⟨hne, (EntryChange.tabulates_between hes hes').nodup⟩
  | modelMap k m =>
      obtain ⟨o, es, rfl, hes, -⟩ := Snapshot.valueConforms_modelMap.1 hr
      obtain ⟨es', rfl, hes', -⟩ := workingCoheres_modelMap.1 hw
      rw [diffWorking] at hp
      obtain ⟨cs, hcs, rfl⟩ := Option.map_eq_some_iff.1 hp
      obtain ⟨hne, rfl⟩ := nonEmpty?_eq_some_iff.1 hcs
      exact ⟨hne, nodup_betweenDrafts hes hes', fun c hc => hcanonical _ (List.mem_map_of_mem hc)⟩
  | nested m =>
      cases p <;> simp only [Payload.IsOf] at hof
      exact hcanonical _ (List.mem_singleton.2 rfl)
  | scalar t =>
      cases p <;> simp only [Payload.IsOf] at hof
      trivial
  | attached t =>
      cases p <;> simp only [Payload.IsOf] at hof
      trivial

theorem proper_diffSlot {kind : FieldKind} {r : Value Snapshot} {s : Slot Snapshot Draft}
    (hr : Snapshot.ValueConforms models kind r) (hs : SlotCoheres models kind s) :
    ∀ p ∈ diffSlot r s, p.Proper kind := by
  cases s with
  | deferred v =>
      exact Snapshot.proper_diffValue hr hs fun t _ ht => Snapshot.diffsProperly_of_conforms ht
  | touched w => exact proper_diffWorking hr hs

/-- All that comparing a coherent draft with conforming values finds for its fields is proper. -/
theorem proper_diffSlots {d : Draft} (hd : d.Coherent models) {base : List (Value Snapshot)}
    (hbase : List.Forall₂ (Snapshot.ValueConforms models) d.layout.kinds base) :
    Accumulator.ProperFields d.layout.kinds (diffSlots base d.slots) := by
  rw [diffSlots_eq_zipWith]
  exact forall₂_zipWith hbase (coherent_iff.1 hd).2 fun _ _ _ _ _ => proper_diffSlot

theorem diffInto_eq {d : Draft} {a : Accumulator} {r : Snapshot} (hdkey : d.key = a.key)
    (hrkey : r.key = d.key) :
    d.diffInto a r = .ok
      { a with fields := Accumulator.absorbFields (diffSlots r.fields d.slots) a.fields } := by
  rw [diffInto, requireSameKey, if_pos hdkey, requireSameKey, if_pos hrkey.symm]
  rfl

/-- Comparing a draft with a version of the same record into an accumulator of that record leaves
for every field what merging the update from the version to the draft leaves, and what was there
before if there is no such update.  The intent of the accumulator stays as it is. -/
theorem diffInto_merges {a : Accumulator} (ha : a.Orderly) {d : Draft} (hd : d.Reachable models)
    {r : Snapshot} (hr : r.Conforms models) (hdraft : d.identity = a.identity)
    (hreference : r.identity = a.identity) :
    ∃ a' found, d.diffInto a r = .ok a' ∧ d.diffAgainst .update r = .ok found ∧
      a'.state = a.state ∧ a'.identity = a.identity ∧
      (found = none → a'.fields = a.fields) ∧
      ∀ c, found = some c → ∃ b, a.add c = .ok b ∧ b.fields = a'.fields := by
  have hdlayout : d.layout = a.layout := congrArg Identity.layout hdraft
  have hrlayout : r.layout = a.layout := congrArg Identity.layout hreference
  have hdkey : d.key = a.key := congrArg Identity.key hdraft
  have hrkey : r.key = d.key := (congrArg Identity.key hreference).trans hdkey.symm
  have hbase := Snapshot.conforms_iff.1 hr
  rw [hrlayout, ← hdlayout] at hbase
  have hproper := proper_diffSlots hd.coherent hbase
  have hfields := Accumulator.orderly_iff.1 ha
  rw [← hdlayout] at hfields
  have hfound := Accumulator.gather_eq hproper .update d.key
  refine ⟨_, _, diffInto_eq hdkey hrkey, diffAgainst_eq d .update hrkey, rfl, rfl, ?_, ?_⟩
  · intro hnone
    rw [diffFrom_eq, ← diffSlots_eq_zipWith, hfound] at hnone
    refine Accumulator.absorbFields_of_silent ?_ a.fields
    by_contra hspeaks
    rw [if_neg fun h => hspeaks h.2] at hnone
    cases hnone
  · intro c hc
    rw [diffFrom_eq, ← diffSlots_eq_zipWith, hfound] at hc
    obtain ⟨-, hc⟩ := Option.ite_none_left_eq_some.1 hc
    cases hc
    refine ⟨_, Accumulator.add_eq hdkey.symm, ?_⟩
    rw [Accumulator.absorb_eq]
    exact Accumulator.absorbFields_map_sorted hproper hfields

end Draft

/-- The deletion of a node for which more has been merged: another label, a node that came and one
that was replaced. -/
def Samples.grafted : Accumulator :=
  ((Accumulator.start Samples.node .delete (.int 1)).addField 0
    (.scalar (.key (.text "oak")))).addField 1
    (.modelMap [⟨.add, .int 9, ⟨Samples.node, .add, .int 3, [none, none]⟩⟩,
      ⟨.update, .int 7, ⟨Samples.node, .add, .int 2, [none, none]⟩⟩])

theorem Samples.orderly_grafted : grafted.Orderly := by
  have hfresh : ∀ key, Change.Canonical ⟨node, .add, key, [none, none]⟩ := fun key =>
    Change.canonical_iff.2 ⟨nofun, .cons nofun (.cons nofun .nil)⟩
  have hlabel : node.kinds[0]? = some (.scalar (.key .text)) := rfl
  have hchildren : node.kinds[1]? = some (.modelMap (.integer .u64) "Node") := rfl
  have hlabelled := (Accumulator.orderly_start node .delete (.int 1)).addField hlabel
    (p := .scalar (.key (.text "oak"))) ⟨trivial, by simp [Payload.changes]⟩
  exact hlabelled.addField hchildren ⟨trivial, by simp [Payload.changes, hfresh]⟩

/-- The node below the root is taken away.  Merging the update that says so turns the deletion of
the root into an update, comparing into the accumulator does not. -/
theorem Draft.diffInto_merges_of_grafted :
    ∃ a' b c,
      ((Edit.field "children" (.remove (.int 7))).run (Samples.family "leaf").edit).1.diffInto
        Samples.grafted (Samples.family "leaf") = .ok a' ∧
      ((Edit.field "children" (.remove (.int 7))).run (Samples.family "leaf").edit).1.diffAgainst
        .update (Samples.family "leaf") = .ok (some c) ∧
      Samples.grafted.add c = .ok b ∧ b.fields = a'.fields ∧
      a'.state.current = .delete ∧ b.state.current = .update := by
  have hreachable : Reachable Samples.nodes
      ((Edit.field "children" (.remove (.int 7))).run (Samples.family "leaf").edit).1 :=
    .run (.edit (Samples.conforms_family "leaf")) (.field fun _ _ _ _ => .remove _)
  obtain ⟨a', found, hinto, hagainst, hstate, -, -, hmerged⟩ :=
    diffInto_merges Samples.orderly_grafted hreachable (Samples.conforms_family "leaf") rfl rfl
  have hfound : (((Edit.field "children" (.remove (.int 7))).run
      (Samples.family "leaf").edit).1.diffAgainst .update (Samples.family "leaf")).toOption.bind
        (Option.map Change.intent) = some .update := by
    decide +kernel
  rw [hagainst] at hfound
  obtain ⟨c, rfl, hintent⟩ := Option.map_eq_some_iff.1 hfound
  obtain ⟨b, hb, hfields⟩ := hmerged c rfl
  refine ⟨a', b, c, hinto, hagainst, hb, hfields, ?_, ?_⟩
  · rw [hstate]
    rfl
  · rw [Accumulator.eq_absorb_of_add hb, Accumulator.absorb_eq, hintent]
    rfl

end VersionedRecords
