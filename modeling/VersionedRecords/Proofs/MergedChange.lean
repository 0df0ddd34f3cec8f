import VersionedRecords.Proofs.MergingFound

/-!
Changes that merging has made.

What an accumulator is built into is well-formed again, so it can be merged and applied like any
change that a comparison has found.  If each change suited the version that the ones before it led
to, then what they are merged into suits the version that the first of them suited.
-/

namespace VersionedRecords

namespace Accumulator

open Draft

variable {models : String → Layout}

/-! ### What is built is well-formed -/

/-- The change that what is pending for a sub-record makes is well-formed. -/
def TellsWellFormed (models : String → Layout) (a : Accumulator) : Prop :=
  ∀ m, RecordSound models m a → ∀ c ∈ build a, c.WellFormed models

theorem wellFormed_settle {kind : FieldKind} {q : Pending Accumulator}
    (hq : PendingSound models kind q) (ih : ∀ a ∈ q.accumulators, TellsWellFormed models a) :
    ∀ p ∈ settle q, p.WellFormed models kind := by
  intro p hp
  have hconforms := payloadConforms_settle hq (fun a _ => tellsConforming a) p hp
  suffices h : Change.PayloadCanonical kind p ∧ Change.PayloadValued p from ⟨hconforms, h.1, h.2⟩
  have hamounts := amountsTo_of_mem_settle hp
  cases kind with
  | scalar t =>
      obtain ⟨v, rfl, -⟩ := pendingSound_scalar.1 hq
      cases hamounts
      exact ⟨trivial, trivial⟩
  | attached t =>
      obtain ⟨v, rfl, -⟩ := pendingSound_attached.1 hq
      cases hamounts
      exact ⟨trivial, trivial⟩
  | nested m =>
      obtain ⟨_, rfl, ha⟩ := pendingSound_nested.1 hq
      cases hamounts with
      | @nested a c hc =>
          have hwf := ih a (by simp [Pending.accumulators]) m (ha a rfl) c hc
          exact ⟨hwf.canonical, hwf.valued⟩
  | keySet k =>
      obtain ⟨pending, rfl, hpending⟩ := pendingSound_keySet.1 hq
      cases hamounts with
      | keySet hne => exact ⟨⟨hne, MemberChange.sorted_settle hpending⟩, trivial⟩
  | valueMap k t =>
      obtain ⟨pending, rfl, hpending, hvalues⟩ := pendingSound_valueMap.1 hq
      cases hamounts with
      | valueMap hne =>
          refine ⟨⟨hne, EntryChange.sorted_settle hpending⟩, fun c hc => ?_⟩
          obtain ⟨e, he, rfl⟩ := List.mem_map.1 hc
          exact (hvalues e he).1
  | modelMap k m =>
      obtain ⟨pending, rfl, hpending, hrecords⟩ := pendingSound_modelMap.1 hq
      have hwf : ∀ c ∈ settleEntries pending, c.change.WellFormed models := by
        intro c hc
        obtain ⟨e, he, -, hbuild⟩ := built_of_mem_settleEntries hc
        exact ih e.2.pending (List.mem_map_of_mem he) m (hrecords e he) c.change hbuild
      cases hamounts with
      | modelMap hne =>
          refine ⟨⟨hne, ?_, Change.entriesCanonical_iff.2 fun c hc => (hwf c hc).canonical⟩,
            Change.entriesValued_iff.2 fun c hc => (hwf c hc).valued⟩
          rw [settleEntries_eq_filterMap]
          exact RecordEntryChange.sorted_ofStates hpending

theorem forall₂_wellFormed_settleFields {kinds : List FieldKind} {qs : List (Pending Accumulator)}
    (hqs : List.Forall₂ (PendingSound models) kinds qs)
    (ih : ∀ q ∈ qs, ∀ a ∈ q.accumulators, TellsWellFormed models a) :
    List.Forall₂ (fun kind p => ∀ q ∈ p, q.WellFormed models kind) kinds (settleFields qs) := by
  induction hqs with
  | nil =>
      rw [settleFields]
      exact .nil
  | cons hq _ ihqs =>
      rw [List.forall_mem_cons] at ih
      rw [settleFields]
      exact .cons (wellFormed_settle hq ih.1) (ihqs ih.2)

theorem payloadValued_of_mem {kinds : List FieldKind} {ps : List (Option (Payload Change))}
    (h : List.Forall₂ (fun kind p => ∀ q ∈ p, q.WellFormed models kind) kinds ps)
    {p : Payload Change} (hp : some p ∈ ps) : Change.PayloadValued p := by
  induction h with
  | nil => cases hp
  | cons hwf _ ih =>
      rcases List.mem_cons.1 hp with rfl | hp
      · exact (hwf p rfl).valued
      · exact ih hp

theorem wellFormed_of_build_of {a : Accumulator}
    (ha : List.Forall₂ (PendingSound models) a.layout.kinds a.fields)
    (ih : ∀ q ∈ a.fields, ∀ b ∈ q.accumulators, TellsWellFormed models b) {c : Change}
    (hc : build a = some c) : c.WellFormed models := by
  have hfields := forall₂_wellFormed_settleFields ha ih
  have htold := build_eq_ite ha
  rw [hc] at htold
  obtain ⟨hspeaks, htold⟩ := Option.ite_none_left_eq_some.1 htold.symm
  cases htold
  refine ⟨conforms_of_build ha hc, Change.canonical_iff.2 ⟨fun hupdate => ?_, ?_⟩,
    Change.valued_iff.2 fun p hp => payloadValued_of_mem hfields hp⟩
  · have htouched : a.fields.any Pending.isTouched = true := by
      by_contra hnot
      exact hspeaks ⟨hupdate, Bool.eq_false_iff.2 hnot⟩
    exact (any_isSome_settleFields ha fun _ _ _ => isSome_settle).trans htouched
  · exact hfields.imp fun kind p hp q hq => (hp q hq).canonical

theorem tellsWellFormed (a : Accumulator) : TellsWellFormed models a := by
  induction a using Accumulator.induction with
  | step a ih =>
      intro m ha c hc
      obtain ⟨-, -, -, hsound⟩ := recordSound_iff.1 ha
      exact wellFormed_of_build_of hsound ih hc

/-- The change that a sound accumulator makes is well-formed. -/
theorem wellFormed_of_build {a : Accumulator}
    (ha : List.Forall₂ (PendingSound models) a.layout.kinds a.fields) {c : Change}
    (hc : build a = some c) : c.WellFormed models :=
  wellFormed_of_build_of ha (fun _ _ b _ => tellsWellFormed b) hc

/-! ### What is merged suits what the pending changes suit -/

/-- If what is pending suits a version and the change suits what that leads to, then what is merged
of both suits the version. -/
def SuitsWhenMerged (models : String → Layout) (c : Change) : Prop :=
  ∀ qs ss, List.Forall₂ (PendingSound models) c.layout.kinds qs →
    List.Forall₂ (SlotCoheres models) c.layout.kinds ss → (∀ s ∈ ss, SlotPlain s) →
    Change.FieldsSuit (settleFields qs) (ss.map contentSlot) →
    Change.FieldsSuit c.fields ((applyPending qs ss).map contentSlot) →
    Change.FieldsSuit (settleFields (absorbFields c.fields qs)) (ss.map contentSlot)

/-- What is merged replaces what is pending unless it updates the same sub-record. -/
theorem absorbRecord_eq_ofChange {c : Change} {q : Option Accumulator}
    (h : ∀ a ∈ q, ¬ (c.intent = .update ∧ a.identity = c.identity)) :
    absorbRecord c q = ofChange c := by
  cases q with
  | none => rfl
  | some a => exact if_neg (h a rfl)

/-- An update of a sub-record for which something is pending. -/
theorem recordSuits_absorb {m : String} {c : Change} (hS : SuitsWhenMerged models c)
    (hupdate : c.intent = .update) {a : Accumulator} (ha : RecordSound models m a)
    {d : Option Draft} (hd : Draft.FitsField models m d)
    (hpending : ∀ x ∈ build a, Change.RecordSuits x (d.bind content))
    (hsuits : Change.RecordSuits c ((recordAfter (build a) d).bind content)) :
    ∀ x ∈ build (absorb c a), Change.RecordSuits x (d.bind content) := by
  obtain ⟨hidentity, hcurrent, hfields⟩ := of_recordSuits_recordAfter ha hsuits hupdate
  obtain ⟨-, hsettled, -, hsound⟩ := recordSound_iff.1 ha
  intro x hx
  refine Change.recordSuits_iff.2 fun hxupdate => ?_
  obtain rfl := eq_of_build hx
  rw [absorb_eq] at hxupdate
  have hstays : a.state.current = .update :=
    (hsettled.current_absorb hcurrent (by rw [hupdate]; decide)).symm.trans hxupdate
  -- what is pending is an update itself, so it met a version of the sub-record
  obtain ⟨r, hr, hri, hrf⟩ := Change.recordSuits_iff.1 (hpending _ ha.build_eq) hstays
  obtain ⟨e, rfl, he⟩ := Option.bind_eq_some_iff.1 hr
  have heidentity : e.identity = a.identity := (identity_of_content he).symm.trans hri
  have hground : Change.ground a.state.current a.identity (some e) = e :=
    if_pos ⟨by rw [hstays]; decide, heidentity⟩
  rw [hground] at hfields
  rw [fields_of_content he] at hrf
  refine ⟨r, hr, ?_, ?_⟩
  · rw [absorb_eq]
    exact hri
  · have hal : a.layout = c.layout := congrArg Identity.layout hidentity
    have hel : e.layout = c.layout := congrArg Identity.layout (heidentity.trans hidentity)
    obtain ⟨-, hcoherent, hplain⟩ := hd e rfl
    rw [fields_of_content he, absorb_eq]
    exact hS a.fields e.slots (hal ▸ hsound) (hel ▸ (coherent_iff.1 hcoherent).2)
      (plain_iff.1 hplain) hrf hfields

theorem recordSuits_absorbRecord {m : String} {c : Change} (hc : c.WellFormed models)
    (hS : SuitsWhenMerged models c) {q : Option Accumulator} (hq : ∀ a ∈ q, RecordSound models m a)
    {d : Option Draft} (hd : Draft.FitsField models m d)
    (hpending : ∀ x ∈ q.bind build, Change.RecordSuits x (d.bind content))
    (hsuits : c.intent = .update →
      Change.RecordSuits c ((recordAfter (q.bind build) d).bind content)) :
    ∀ x ∈ build (absorbRecord c q), Change.RecordSuits x (d.bind content) := by
  by_cases hupdate : c.intent = .update
  · cases q with
    | none =>
        rw [absorbRecord, build_ofChange hc.canonical]
        rintro x ⟨⟩
        exact hsuits hupdate
    | some a =>
        have hidentity := (of_recordSuits_recordAfter (hq a rfl) (hsuits hupdate) hupdate).1
        rw [absorbRecord, if_pos ⟨hupdate, hidentity⟩]
        exact recordSuits_absorb hS hupdate (hq a rfl) hd hpending (hsuits hupdate)
  · rw [absorbRecord_eq_ofChange fun a _ h => hupdate h.1, build_ofChange hc.canonical]
    rintro x ⟨⟩
    exact Change.recordSuits_of_ne_update hupdate _

/-- The same for an entry. -/
theorem entrySuits_merged {m : String} {c : RecordEntryChange Change}
    (hc : c.change.WellFormed models) (hS : SuitsWhenMerged models c.change) {k : Key}
    {o : Option (RecordEntryState Accumulator)} (ho : ∀ s ∈ o, RecordSound models m s.pending)
    {d : Option Draft} (hd : Draft.FitsField models m d)
    (hpending : ∀ x ∈ o.bind fun s => RecordEntryChange.ofState? (k, s),
      x.intent ≠ .delete → Change.RecordSuits x.change (d.bind content))
    (hsuits : c.intent ≠ .delete → Change.RecordSuits c.change
      (((o.bind fun s => RecordEntryChange.ofState? (k, s)).elim d fun x => x.act d).bind content)) :
    ∀ x ∈ RecordEntryChange.ofState? (k, c.merged o),
      x.intent ≠ .delete → Change.RecordSuits x.change (d.bind content) := by
  intro x hx hdelete
  obtain ⟨y, hy, rfl⟩ := Option.map_eq_some_iff.1 hx
  have hset : c.intent ≠ .delete := fun h => hdelete ((c.current_merged o).2 h)
  rw [RecordEntryChange.pending_merged] at hy
  by_cases hupdate : c.change.intent = .update
  · cases o with
    | none =>
        have hmet : Change.RecordSuits c.change ((recordAfter none d).bind content) := hsuits hset
        exact recordSuits_absorbRecord hc hS (q := none) (by simp) hd (by simp) (fun _ => hmet) y hy
    | some s =>
        have hs := ho s rfl
        have hmet := hsuits hset
        rw [Option.bind_some, RecordEntryChange.ofState?, hs.build_eq, Option.map_some,
          Option.elim_some, RecordEntryChange.act] at hmet
        -- the entry is still there, or there would be nothing to update
        have hcurrent : s.state.current ≠ .delete := by
          intro hcurrent
          obtain ⟨r, hr, -⟩ := Change.recordSuits_iff.1 hmet hupdate
          simp [hcurrent] at hr
        rw [if_neg hcurrent] at hmet
        have hbefore : ∀ x ∈ build s.pending, Change.RecordSuits x (d.bind content) := by
          intro x hx
          refine hpending ⟨s.state.current, k, x⟩ ?_ hcurrent
          rw [Option.bind_some, RecordEntryChange.ofState?, Option.mem_def.1 hx]
          rfl
        refine recordSuits_absorbRecord hc hS (by simpa using hs) hd (by simpa using hbefore)
          (fun _ => ?_) y hy
        rwa [Option.map_some, Option.bind_some, hs.build_eq]
  · rw [absorbRecord_eq_ofChange fun a _ h => hupdate h.1, build_ofChange hc.canonical] at hy
    cases hy
    exact Change.recordSuits_of_ne_update hupdate _

/-- The same for all entries of a map. -/
theorem entriesSuit_absorbEntries {m : String} {cs : List (RecordEntryChange Change)}
    (hcs : ∀ c ∈ cs, c.change.WellFormed models) (hsorted : Keyed.Sorted RecordEntryChange.key cs)
    (hS : ∀ c ∈ cs, SuitsWhenMerged models c.change)
    {pending : Keyed (RecordEntryState Accumulator)} (hpending : Keyed.Ascending pending)
    (hrecords : ∀ e ∈ pending, RecordSound models m e.2.pending) {es : Keyed Draft}
    (hes : Keyed.Ascending es) (hfits : ∀ k, Draft.FitsField models m (Keyed.find? k es))
    (hbefore : Change.EntriesSuit (settleEntries pending) (contentEntries es))
    (hsuits : Change.EntriesSuit cs
      (contentEntries (Change.applyEntries (settleEntries pending) es))) :
    Change.EntriesSuit (settleEntries (absorbEntries cs pending)) (contentEntries es) := by
  have hmerged : Keyed.Ascending (absorbEntries cs pending) := by
    rw [absorbEntries_eq_foldl]
    exact Keyed.ascending_foldl_merge RecordEntryChange.mergeEntry_eq cs hpending
  have htable := tabulates_settleEntries hpending
  have happlied := RecordEntryChange.ascending_applyEntries (settleEntries pending) hes
  -- what is pending under a key suits what there is under it
  have hmet : ∀ k, ∀ x ∈ (Keyed.find? k pending).bind fun s => RecordEntryChange.ofState? (k, s),
      x.intent ≠ .delete → Change.RecordSuits x.change ((Keyed.find? k es).bind content) := by
    intro k x hx hdelete
    obtain ⟨hmem, rfl⟩ := (htable.mem_iff k x).1 hx
    rw [← find?_contentEntries hes]
    exact Change.entriesSuit_iff.1 hbefore x hmem hdelete
  refine Change.entriesSuit_iff.2 fun x hx => ?_
  have hfound := ((tabulates_settleEntries hmerged).mem_iff x.key x).2 ⟨hx, rfl⟩
  rw [absorbEntries_eq_foldl,
    Keyed.find?_foldl_merge RecordEntryChange.mergeEntry_eq hsorted.tabulates] at hfound
  rw [find?_contentEntries hes]
  generalize x.key = k at hfound
  cases hc : cs.find? fun c => c.key = k with
  | none =>
      rw [hc] at hfound
      exact hmet k x hfound
  | some c =>
      have hmem := List.mem_of_find?_eq_some hc
      obtain rfl : c.key = k := by simpa using List.find?_some hc
      rw [hc, Option.elim_some, Option.bind_some] at hfound
      refine entrySuits_merged (hcs c hmem) (hS c hmem) (fun s hs => ?_) (hfits c.key) (hmet c.key)
        (fun hdelete => ?_) x hfound
      · exact hrecords (c.key, s) ((Keyed.mem_iff_find? hpending c.key s).2 hs)
      · have hrecord := Change.entriesSuit_iff.1 hsuits c hmem hdelete
        rwa [find?_contentEntries happlied, RecordEntryChange.find?_applyEntries htable hes] at hrecord

theorem payloadSuits_absorbPayload {kind : FieldKind} {p : Payload Change}
    (hp : p.WellFormed models kind)
    (ih : ∀ c ∈ p.changes, c.WellFormed models → SuitsWhenMerged models c)
    {q : Pending Accumulator} (hq : PendingSound models kind q) {w : Working Draft}
    (hw : WorkingCoheres models kind w) (hplain : WorkingPlain w)
    (hpending : ∀ x ∈ settle q, Change.PayloadSuits x (contentWorking w))
    (hsuits : Change.PayloadSuits p (contentWorking (applySettled q w))) :
    ∀ x ∈ settle (absorbPayload p q), Change.PayloadSuits x (contentWorking w) := by
  have hconforms := hp.conforms
  cases kind <;> cases p <;> simp only [Change.PayloadConforms] at hconforms
  · rintro x ⟨⟩
    trivial
  · rintro x ⟨⟩
    trivial
  · next m c =>
    obtain ⟨a, rfl, ha⟩ := pendingSound_nested.1 hq
    obtain ⟨d, rfl, hd⟩ := workingCoheres_nested.1 hw
    have hfits := Draft.fitsField_of_coheres hd hplain
    rw [applySettled_nested, contentWorking_nested] at hsuits
    rw [contentWorking_nested] at hpending ⊢
    have hbefore : ∀ z ∈ a.bind build, Change.RecordSuits z (d.bind content) := by
      intro z hz
      refine hpending (.nested z) ?_
      cases a with
      | none => cases hz
      | some a =>
          rw [settle]
          exact congrArg (Option.map Payload.nested) hz
    rw [absorbPayload_nested, settle]
    intro x hx
    obtain ⟨y, hy, rfl⟩ := Option.map_eq_some_iff.1 hx
    exact recordSuits_absorbRecord hp.nested.2 (ih c (by simp [Payload.changes]) hp.nested.2) ha
      hfits hbefore (fun _ => hsuits) y hy
  · obtain ⟨pending, rfl, -⟩ := pendingSound_keySet.1 hq
    intro x hx
    obtain ⟨cs, -, rfl⟩ := Option.map_eq_some_iff.1 hx
    trivial
  · obtain ⟨pending, rfl, -⟩ := pendingSound_valueMap.1 hq
    intro x hx
    obtain ⟨cs, -, rfl⟩ := Option.map_eq_some_iff.1 hx
    trivial
  · next k m cs =>
    obtain ⟨pending, rfl, hascending, hrecords⟩ := pendingSound_modelMap.1 hq
    obtain ⟨es, rfl, hes, hentries⟩ := workingCoheres_modelMap.1 hw
    obtain ⟨-, hsorted, hcs⟩ := hp.modelMap
    rw [applySettled_modelMap, contentWorking] at hsuits
    have hbefore : Change.EntriesSuit (settleEntries pending) (contentEntries es) := by
      cases hsettled : settleEntries pending with
      | nil => trivial
      | cons c rest =>
          refine hpending (.modelMap (c :: rest)) ?_
          rw [settle, hsettled]
          rfl
    intro x hx
    obtain ⟨ys, hys, rfl⟩ := Option.map_eq_some_iff.1 hx
    obtain ⟨-, rfl⟩ := nonEmpty?_eq_some_iff.1 hys
    exact entriesSuit_absorbEntries (fun c hc => (hcs c hc).2) hsorted
      (fun c hc => ih c.change (List.mem_map_of_mem hc) (hcs c hc).2) hascending hrecords hes
      (Draft.fitsField_find? hentries (entriesPlain_iff.1 hplain)) hbefore hsuits

theorem fieldsSuit_cons {p : Option (Payload Change)} {ps : List (Option (Payload Change))}
    {v : Value Snapshot} {vs : List (Value Snapshot)} :
    Change.FieldsSuit (p :: ps) (v :: vs) ↔
      (∀ x ∈ p, Change.PayloadSuits x v) ∧ Change.FieldsSuit ps vs := by
  cases p <;> simp [Change.FieldsSuit]

theorem suitsWhenMerged {c : Change} (hc : c.WellFormed models) : SuitsWhenMerged models c := by
  induction c using Change.induction with
  | step c ih =>
      intro qs ss hqs hss hplain hpending hsuits
      have haligned := aligned_of_wellFormed hc.fields hqs hss hplain ih
      clear hqs hss hplain
      generalize c.fields = ps at haligned hsuits ⊢
      generalize c.layout.kinds = kinds at haligned
      induction haligned with
      | nil => exact hpending
      | silent _ ihrest =>
          rw [settleFields, List.map_cons, fieldsSuit_cons] at hpending
          rw [applyPending_cons, List.map_cons, fieldsSuit_cons] at hsuits
          rw [absorbFields, settleFields, List.map_cons, fieldsSuit_cons]
          exact ⟨hpending.1, ihrest hpending.2 hsuits.2⟩
      | @told _ _ p _ _ _ _ _ hp hbelow hq hw hplain _ ihrest =>
          rw [settleFields, List.map_cons, fieldsSuit_cons, ← Change.contentWorking_working]
            at hpending
          rw [applyPending_cons, List.map_cons, fieldsSuit_cons, ← Change.contentWorking_working,
            working_applySlot_settle] at hsuits
          rw [absorbFields, settleFields, List.map_cons, fieldsSuit_cons,
            ← Change.contentWorking_working]
          exact ⟨payloadSuits_absorbPayload hp hbelow hq hw hplain hpending.1 (hsuits.1 p rfl),
            ihrest hpending.2 hsuits.2⟩

end Accumulator

end VersionedRecords
