import VersionedRecords.Proofs.Accumulation
import VersionedRecords.Proofs.Outline
import VersionedRecords.Proofs.Plainness

/-!
Merging a change and applying what is merged.

What is pending for the fields of a record can be applied to a draft.  Merging one more change into
it and applying the outcome leaves the same outline as applying what was pending and then the
change, as long as each update of a sub-record continues what is pending for it: the sub-record is
the same, and it is not to be deleted.
-/

namespace VersionedRecords

/-! ### Drafts that fit a field -/

namespace Draft

/-- Coherent drafts of the records that a field names, without values that are not plain. -/
def FitsField (models : String → Layout) (m : String) (d : Option Draft) : Prop :=
  ∀ e ∈ d, e.layout = models m ∧ e.Coherent models ∧ e.Plain

theorem fitsField_find? {models : String → Layout} {m : String} {es : Keyed Draft}
    (hentries : ∀ e ∈ es, e.2.layout = models m ∧ e.2.Coherent models)
    (hplain : ∀ e ∈ es, e.2.Plain) (k : Key) : FitsField models m (Keyed.find? k es) := by
  intro d hd
  have hmem := Keyed.mem_of_find? hd
  exact ⟨(hentries _ hmem).1, (hentries _ hmem).2, hplain _ hmem⟩

theorem fitsField_of_coheres {models : String → Layout} {m : String} {d : Option Draft}
    (hd : ∀ e ∈ d, e.layout = models m ∧ e.Coherent models)
    (hplain : WorkingPlain (.nested d)) : FitsField models m d :=
  fun e he => ⟨(hd e he).1, (hd e he).2, workingPlain_nested.1 hplain e he⟩

end Draft

/-! ### What a change of a sub-record begins with -/

namespace Change

open Draft

/-- The draft that a change of a sub-record is applied to: the one that is held, if it is of the
same record and the change is not its creation, and otherwise an empty one. -/
def ground (intent : Intent) (identity : Identity) : Option Draft → Draft
  | some d =>
    if intent ≠ .add ∧ d.identity = identity then d else .new identity.layout identity.key
  | none => .new identity.layout identity.key

theorem applyRecord_eq (c : Change) (d : Option Draft) :
    c.applyRecord d = c.applyTo (ground c.intent c.identity d) := by
  unfold applyRecord ground
  cases d with
  | none => rfl
  | some d =>
      dsimp only
      split <;> rfl

theorem identity_ground (intent : Intent) (identity : Identity) (d : Option Draft) :
    (ground intent identity d).identity = identity := by
  unfold ground
  cases d with
  | none => rfl
  | some d =>
      dsimp only
      split
      · next h => exact h.2
      · rfl

/-- Unless a change of a sub-record updates it, the sub-record afterwards is the same whatever it
was before. -/
theorem outline_applyRecord_of_ne_update {c : Change} (hintent : c.intent ≠ .update)
    (d e : Option Draft) : (c.applyRecord d).outline = (c.applyRecord e).outline := by
  have hfresh : ∀ d : Option Draft, (c.applyRecord d).outline = c.toDraft.outline := by
    intro d
    by_cases hadd : c.intent = .add
    · rw [applyRecord_of_not_held fun _ _ => .inl hadd]
    · have hdelete : c.intent = .delete := by
        cases h : c.intent <;> simp_all
      have hidentity := identity_ground c.intent c.identity d
      have hlayout := congrArg Identity.layout hidentity
      rw [applyRecord_eq, toDraft]
      refine outline_eq_iff.2 ⟨?_, ?_, ?_⟩
      · rw [identity_applyTo, identity_applyTo, hidentity]
        rfl
      · rw [applyTo_eq, applyTo_eq, if_pos hdelete, if_pos hdelete]
        rfl
      · rw [applyTo_eq, applyTo_eq, if_pos hdelete, if_pos hdelete]
        exact congrArg (fun l => (zeroSlots l).map outlineSlot) hlayout
  rw [hfresh d, hfresh e]

end Change

/-! ### Continuing what is pending -/

namespace Accumulator

mutual

/-- Each update of a sub-record continues what is pending for it. -/
def FieldsContinue : List (Option (Payload Change)) → List (Pending Accumulator) → Prop
  | none :: ps, _ :: qs => FieldsContinue ps qs
  | some p :: ps, q :: qs => PayloadContinues p q ∧ FieldsContinue ps qs
  | _, _ => True

def PayloadContinues : Payload Change → Pending Accumulator → Prop
  | .nested c, .nested q => RecordContinues c q
  | .modelMap cs, .modelMap pending => EntriesContinue cs pending
  | _, _ => True

/-- If the change updates a sub-record for which something is pending, then it is the same
sub-record, it is not to be deleted, and the change continues what is pending. -/
def RecordContinues : Change → Option Accumulator → Prop
  | ⟨layout, intent, key, fields⟩, q =>
    intent = .update → ∀ a ∈ q, a.identity = ⟨layout, key⟩ ∧ a.state.current ≠ .delete ∧
      FieldsContinue fields a.fields

def EntriesContinue : List (RecordEntryChange Change) → Keyed (RecordEntryState Accumulator) → Prop
  | [], _ => True
  | ⟨intent, key, c⟩ :: cs, pending =>
    (intent ≠ .delete → ∀ s ∈ Keyed.find? key pending,
      (c.intent = .update → s.state.current ≠ .delete) ∧ RecordContinues c (some s.pending)) ∧
    EntriesContinue cs pending

end

theorem recordContinues_iff {c : Change} {q : Option Accumulator} :
    RecordContinues c q ↔ (c.intent = .update → ∀ a ∈ q, a.identity = c.identity ∧
      a.state.current ≠ .delete ∧ FieldsContinue c.fields a.fields) := by
  obtain ⟨layout, intent, key, fields⟩ := c
  rw [RecordContinues]
  rfl

theorem entriesContinue_iff {cs : List (RecordEntryChange Change)}
    {pending : Keyed (RecordEntryState Accumulator)} :
    EntriesContinue cs pending ↔ ∀ c ∈ cs, c.intent ≠ .delete →
      ∀ s ∈ Keyed.find? c.key pending, (c.change.intent = .update → s.state.current ≠ .delete) ∧
        RecordContinues c.change (some s.pending) := by
  induction cs with
  | nil => simp [EntriesContinue]
  | cons c cs ih => rw [EntriesContinue, ih, List.forall_mem_cons]

/-! ### Applying what is pending -/

/-- What is pending for the fields, applied to slots. -/
def applyPending (qs : List (Pending Accumulator)) (ss : List (Slot Snapshot Draft)) :
    List (Slot Snapshot Draft) :=
  Change.applyFields (settleFields qs) ss

/-- The same of one working copy. -/
def applySettled (q : Pending Accumulator) (w : Working Draft) : Working Draft :=
  (settle q).elim w fun p => Change.applyPayload p w

/-- The sub-record after a change of it, if there is one. -/
def recordAfter (x : Option Change) (d : Option Draft) : Option Draft :=
  x.elim d fun x => some (x.applyRecord d)

theorem applyPending_cons (q : Pending Accumulator) (qs : List (Pending Accumulator))
    (s : Slot Snapshot Draft) (ss : List (Slot Snapshot Draft)) :
    applyPending (q :: qs) (s :: ss) = Change.applySlot (settle q) s :: applyPending qs ss := by
  rw [applyPending, settleFields]
  cases settle q <;> rw [Change.applyFields] <;> rfl

theorem applySlot_settle_of_isSome {q : Pending Accumulator} (h : (settle q).isSome = true)
    (s : Slot Snapshot Draft) :
    Change.applySlot (settle q) s = .touched (applySettled q s.working) := by
  obtain ⟨p, hp⟩ := Option.isSome_iff_exists.1 h
  rw [applySettled, hp]
  rfl

theorem working_applySlot_settle (q : Pending Accumulator) (s : Slot Snapshot Draft) :
    (Change.applySlot (settle q) s).working = applySettled q s.working := by
  rw [applySettled]
  cases settle q <;> rfl

theorem applySettled_nested (q : Option Accumulator) (d : Option Draft) :
    applySettled (.nested q) (.nested d) = .nested (recordAfter (q.bind build) d) := by
  cases q with
  | none => rw [applySettled, settle]; rfl
  | some a =>
      rw [applySettled, settle, Option.bind_some]
      cases build a with
      | none => rfl
      | some x => exact Change.applyPayload_nested x d

theorem applySettled_keySet (pending : Keyed IntentState) (ms : List Key) :
    applySettled (.keySet pending) (.keySet ms) =
      .keySet (MemberChange.applyAll (MemberChange.settle pending) ms) := by
  rw [applySettled, settle]
  cases pending with
  | nil => rfl
  | cons e pending => simp [nonEmpty?, MemberChange.settle, Change.applyPayload]

theorem applySettled_valueMap (pending : Keyed EntryState) (es : Keyed Datum) :
    applySettled (.valueMap pending) (.valueMap es) =
      .valueMap (EntryChange.applyAll (EntryChange.settle pending) es) := by
  rw [applySettled, settle]
  cases pending with
  | nil => rfl
  | cons e pending => simp [nonEmpty?, EntryChange.settle, Change.applyPayload]

theorem applySettled_modelMap (pending : Keyed (RecordEntryState Accumulator))
    (es : Keyed Draft) :
    applySettled (.modelMap pending) (.modelMap es) =
      .modelMap (Change.applyEntries (settleEntries pending) es) := by
  rw [applySettled, settle]
  cases settleEntries pending with
  | nil => simp [nonEmpty?, Change.applyEntries]
  | cons e pending => simp [nonEmpty?, Change.applyPayload]

end Accumulator

namespace MemberChange

theorem tabulates_settle {pending : Keyed IntentState} (h : Keyed.Ascending pending) :
    Keyed.Tabulates key
      (fun k => (Keyed.find? k pending).map fun s => (⟨s.current, k⟩ : MemberChange))
      (settle pending) := by
  have htable : Keyed.Tabulates key _ (settle pending) :=
    (Keyed.tabulates_of_ascending h).map
      (fun e : Key × IntentState => (⟨e.2.current, e.1⟩ : MemberChange)) fun _ => rfl
  simp only [Option.map_map, Function.comp_def] at htable
  exact htable

/-- One more change is merged: applying what is pending then applies it last. -/
theorem applyAll_settle_mergeInto (c : MemberChange) {pending : Keyed IntentState}
    (hpending : Keyed.Ascending pending) {ms : List Key} (hms : KeySet.Ascending ms) :
    applyAll (settle (c.mergeInto pending)) ms = c.applyTo (applyAll (settle pending) ms) := by
  have hmerged : Keyed.Ascending (c.mergeInto pending) :=
    mergeInto_eq pending c ▸ Keyed.ascending_insert hpending c.key _
  refine KeySet.ext_mem (ascending_applyAll _ hms)
    (ascending_applyTo c (ascending_applyAll _ hms)) fun k => ?_
  rw [mem_applyAll (tabulates_settle hmerged), mem_applyTo, mergeInto_eq, Keyed.find?_insert]
  split
  · simp only [Option.map_some, Option.elim_some, ne_eq]
    rw [current_merged]
  · exact (mem_applyAll (tabulates_settle hpending) ms k).symm

/-- Applying what is merged is applying one after the other. -/
theorem applyAll_mergeAll (cs : List MemberChange) {pending : Keyed IntentState}
    (hpending : Keyed.Ascending pending) {ms : List Key} (hms : KeySet.Ascending ms) :
    applyAll (settle (mergeAll cs pending)) ms = applyAll cs (applyAll (settle pending) ms) := by
  induction cs generalizing pending with
  | nil => rfl
  | cons c cs ih =>
      have hmerged : Keyed.Ascending (c.mergeInto pending) :=
        mergeInto_eq pending c ▸ Keyed.ascending_insert hpending c.key _
      rw [mergeAll, List.foldl_cons, ← mergeAll, ih hmerged,
        applyAll_settle_mergeInto c hpending hms]
      rfl

end MemberChange

namespace EntryChange

theorem tabulates_settle {pending : Keyed EntryState} (h : Keyed.Ascending pending) :
    Keyed.Tabulates key (fun k => (Keyed.find? k pending).map fun s => s.build k)
      (settle pending) := by
  have htable : Keyed.Tabulates key _ (settle pending) :=
    (Keyed.tabulates_of_ascending h).map (fun e : Key × EntryState => e.2.build e.1) fun _ => rfl
  simp only [Option.map_map, Function.comp_def] at htable
  exact htable

/-- A change that brings a plain value if it sets the entry leaves the same behind wherever only
plain values are. -/
theorem act_eq_of_valued {c : EntryChange} (hc : c.Valued) {v : Option Datum}
    (hv : ∀ x ∈ v, x.isPlain = true) :
    c.act v = if c.intent = .delete then none else c.value := by
  obtain ⟨intent, key, value⟩ := c
  by_cases hdelete : intent = .delete
  · simp [act, hdelete]
  · cases value with
    | none => exact absurd rfl (hc.1 hdelete)
    | some w => rw [act_some hdelete (hc.2 w rfl) hv, if_neg hdelete]

theorem plain_act {c : EntryChange} (hc : c.Valued) {v : Option Datum}
    (hv : ∀ x ∈ v, x.isPlain = true) : ∀ x ∈ c.act v, x.isPlain = true := by
  rw [act_eq_of_valued hc hv]
  split
  · simp
  · exact hc.2

/-- One more change is merged: applying what is pending then applies it last. -/
theorem applyAll_settle_mergeInto {c : EntryChange} (hc : c.Valued) {pending : Keyed EntryState}
    (hpending : Keyed.Ascending pending) (hpvalued : ∀ e ∈ pending, e.2.Valued)
    {es : Keyed Datum} (hes : Keyed.Ascending es) (hplain : ∀ e ∈ es, e.2.isPlain = true) :
    applyAll (settle (c.mergeInto pending)) es = c.applyTo (applyAll (settle pending) es) := by
  have hmerged : Keyed.Ascending (c.mergeInto pending) :=
    mergeInto_eq pending c ▸ Keyed.ascending_insert hpending c.key _
  have hbefore : ∀ k, ∀ x ∈ Keyed.find? k es, x.isPlain = true := fun k x hx =>
    hplain (k, x) (Keyed.mem_of_find? hx)
  refine Keyed.ext_find? (ascending_applyAll _ hes)
    (ascending_applyTo c (ascending_applyAll _ hes)) fun k => ?_
  have hbetween : ∀ x ∈ Keyed.find? k (applyAll (settle pending) es), x.isPlain = true := by
    rw [find?_applyAll (tabulates_settle hpending) hes]
    cases hfind : Keyed.find? k pending with
    | none => exact hbefore k
    | some s =>
        have hs : (s.build k).Valued := hpvalued (k, s) (Keyed.mem_of_find? hfind)
        exact plain_act hs (hbefore k)
  rw [find?_applyAll (tabulates_settle hmerged) hes, find?_applyTo c (ascending_applyAll _ hes),
    mergeInto_eq, Keyed.find?_insert]
  split
  · have hmv : ((c.merged (Keyed.find? c.key pending)).build k).Valued := hc.merged _
    rw [Option.map_some, Option.elim_some, act_eq_of_valued hmv (hbefore k),
      act_eq_of_valued hc hbetween]
    simp only [EntryState.build, current_merged, value_merged]
  · rw [find?_applyAll (tabulates_settle hpending) hes]

/-- Applying what is merged is applying one after the other. -/
theorem applyAll_mergeAll {cs : List EntryChange} (hvalued : ∀ c ∈ cs, c.Valued)
    {pending : Keyed EntryState} (hpending : Keyed.Ascending pending)
    (hpvalued : ∀ e ∈ pending, e.2.Valued) {es : Keyed Datum} (hes : Keyed.Ascending es)
    (hplain : ∀ e ∈ es, e.2.isPlain = true) :
    applyAll (settle (mergeAll cs pending)) es = applyAll cs (applyAll (settle pending) es) := by
  induction cs generalizing pending with
  | nil => rfl
  | cons c cs ih =>
      rw [List.forall_mem_cons] at hvalued
      have hmerged : Keyed.Ascending (c.mergeInto pending) :=
        mergeInto_eq pending c ▸ Keyed.ascending_insert hpending c.key _
      have hmvalued : ∀ e ∈ c.mergeInto pending, e.2.Valued := by
        rw [mergeInto_eq]
        intro e he
        rcases Keyed.mem_insert he with rfl | he
        · exact hvalued.1.merged _
        · exact hpvalued e he
      rw [mergeAll, List.foldl_cons, ← mergeAll, ih hvalued.2 hmerged hmvalued,
        applyAll_settle_mergeInto hvalued.1 hpending hpvalued hes hplain]
      rfl

end EntryChange

/-! ### Merging a change of a sub-record -/

open Draft

variable {models : String → Layout}

namespace Accumulator

/-- Merging the change into what is pending for the fields and applying the outcome leaves the same
outlines as applying what was pending and then the change. -/
def MergesAsApplied (models : String → Layout) (c : Change) : Prop :=
  ∀ qs ss, List.Forall₂ (PendingSound models) c.layout.kinds qs →
    List.Forall₂ (SlotCoheres models) c.layout.kinds ss → (∀ s ∈ ss, SlotPlain s) →
    FieldsContinue c.fields qs →
    (applyPending (absorbFields c.fields qs) ss).map outlineSlot =
      (Change.applyFields c.fields (applyPending qs ss)).map outlineSlot

theorem fitsField_ground {m : String} {d : Option Draft} (hd : Draft.FitsField models m d)
    (intent : Intent) (identity : Identity) :
    (Change.ground intent identity d).Coherent models ∧
      (Change.ground intent identity d).Plain := by
  have hnew : (Draft.new identity.layout identity.key).Coherent models ∧
      (Draft.new identity.layout identity.key).Plain := ⟨coherent_new _ _, plain_new _ _⟩
  unfold Change.ground
  cases d with
  | none => exact hnew
  | some d =>
      dsimp only
      split
      · exact (hd d rfl).2
      · exact hnew

/-- What is pending for a sub-record is applied to the draft that its intent begins with. -/
theorem recordAfter_build {m : String} {a : Accumulator} (ha : RecordSound models m a)
    (d : Option Draft) :
    recordAfter (build a) d =
      some (Change.applyTo ⟨a.layout, a.state.current, a.key, settleFields a.fields⟩
        (Change.ground a.state.current a.identity d)) := by
  rw [ha.build_eq, recordAfter, Option.elim_some, Change.applyRecord_eq]
  rfl

/-- An update that continues what is pending for the sub-record. -/
theorem outline_applyRecord_absorb {m : String} {c : Change} (hc : c.WellFormed models)
    (hmerges : MergesAsApplied models c) (hupdate : c.intent = .update) {a : Accumulator}
    (ha : RecordSound models m a)
    (hidentity : a.identity = c.identity) (hcurrent : a.state.current ≠ .delete)
    (hcontinues : FieldsContinue c.fields a.fields) {d : Option Draft}
    (hd : Draft.FitsField models m d) :
    ∃ x, build (absorbRecord c (some a)) = some x ∧
      (x.applyRecord d).outline = (c.applyRecord (recordAfter (build a) d)).outline := by
  obtain ⟨halayout, hsettled, -, hfields⟩ := recordSound_iff.1 ha
  have hakinds : a.layout = c.layout := congrArg Identity.layout hidentity
  have hmerged := RecordSound.absorbRecord hc (hakinds.symm.trans halayout) (q := some a)
    fun _ h => by cases h; exact ha
  have habsorb : absorbRecord c (some a) =
      { a with state := a.state.absorb .update, fields := absorbFields c.fields a.fields } := by
    rw [absorbRecord, if_pos ⟨hupdate, hidentity⟩, absorb_eq, hupdate]
  have hkeeps : (a.state.absorb .update).current = a.state.current :=
    hsettled.current_absorb hcurrent (by decide)
  rw [habsorb] at hmerged ⊢
  refine ⟨_, hmerged.build_eq, ?_⟩
  rw [hkeeps]
  -- the merged change begins with the same draft as the one that was pending
  have hafter : Change.applyRecord
      ⟨a.layout, a.state.current, a.key, settleFields (absorbFields c.fields a.fields)⟩ d =
      Change.applyTo
        ⟨a.layout, a.state.current, a.key, settleFields (absorbFields c.fields a.fields)⟩
        (Change.ground a.state.current a.identity d) :=
    Change.applyRecord_eq _ d
  have hground := Change.identity_ground a.state.current a.identity d
  obtain ⟨hcoherent, hplain⟩ := fitsField_ground hd a.state.current a.identity
  rw [recordAfter_build ha]
  refine (congrArg outline hafter).trans ?_
  generalize Change.ground a.state.current a.identity d = g at *
  have hheld : (Change.applyTo ⟨a.layout, a.state.current, a.key, settleFields a.fields⟩ g).identity
      = c.identity := by
    rw [Change.identity_applyTo, hground, hidentity]
  rw [Change.applyRecord_of_held (by rw [hupdate]; decide) hheld]
  refine outline_eq_iff.2 ⟨?_, ?_, ?_⟩
  · simp only [Change.identity_applyTo]
  · simp [Change.applyTo_eq, hcurrent, hupdate, isDeleted]
  · have hkinds : c.layout = g.layout :=
      congrArg Identity.layout (hidentity.symm.trans hground.symm)
    rw [Change.applyTo_eq, Change.applyTo_eq, Change.applyTo_eq, if_neg hcurrent, if_neg hcurrent,
      if_neg (by rw [hupdate]; decide)]
    refine hmerges a.fields g.slots (hakinds ▸ hfields) ?_ (plain_iff.1 hplain) hcontinues
    rw [hkinds]
    exact (coherent_iff.1 hcoherent).2

/-- Merging a change of a sub-record into what is pending for it.  If the change updates the
sub-record, it has to meet what the pending change makes of it. -/
theorem outline_applyRecord_absorbRecord {m : String} {c : Change} (hc : c.WellFormed models)
    (hmerges : MergesAsApplied models c) {q : Option Accumulator}
    (hq : ∀ a ∈ q, RecordSound models m a) (hcontinues : RecordContinues c q) {d e : Option Draft}
    (hd : Draft.FitsField models m d)
    (he : c.intent = .update → e = recordAfter (q.bind build) d) :
    ∃ x, build (absorbRecord c q) = some x ∧
      (x.applyRecord d).outline = (c.applyRecord e).outline := by
  by_cases hupdate : c.intent = .update
  · rw [he hupdate]
    cases q with
    | none => exact ⟨c, build_ofChange hc.canonical, rfl⟩
    | some a =>
        obtain ⟨hidentity, hcurrent, hfields⟩ := recordContinues_iff.1 hcontinues hupdate a rfl
        exact outline_applyRecord_absorb hc hmerges hupdate (hq a rfl) hidentity hcurrent hfields hd
  · have habsorb : absorbRecord c q = ofChange c := by
      cases q with
      | none => rfl
      | some a => exact if_neg fun h => hupdate h.1
    rw [habsorb]
    exact ⟨c, build_ofChange hc.canonical, Change.outline_applyRecord_of_ne_update hupdate d e⟩

/-! ### Merging changes of entries -/

theorem tabulates_settleEntries {pending : Keyed (RecordEntryState Accumulator)}
    (h : Keyed.Ascending pending) :
    Keyed.Tabulates RecordEntryChange.key
      (fun k => (Keyed.find? k pending).bind fun s => RecordEntryChange.ofState? (k, s))
      (settleEntries pending) := by
  have htable := (Keyed.tabulates_of_ascending h).filterMap
    fun e _ => RecordEntryChange.key_of_ofState? e
  rw [← settleEntries_eq_filterMap] at htable
  simpa only [Option.bind_map, Function.comp_def] using htable

/-- Applying what is merged for one entry is applying one after the other. -/
theorem outline_act_merged {m : String} {c : RecordEntryChange Change}
    (hc : c.change.WellFormed models) (hlayout : c.change.layout = models m)
    (hmerges : MergesAsApplied models c.change) {o : Option (RecordEntryState Accumulator)}
    (ho : ∀ s ∈ o, RecordSound models m s.pending)
    (hcontinues : c.intent ≠ .delete → ∀ s ∈ o,
      (c.change.intent = .update → s.state.current ≠ .delete) ∧
        RecordContinues c.change (some s.pending))
    {d : Option Draft} (hd : Draft.FitsField models m d) (k : Key) :
    ((RecordEntryChange.ofState? (k, c.merged o)).elim d fun x => x.act d).map outline =
      (c.act ((o.bind fun s => RecordEntryChange.ofState? (k, s)).elim d fun x => x.act d)).map
        outline := by
  have hq : ∀ a ∈ o.map RecordEntryState.pending, RecordSound models m a := by
    intro a ha
    obtain ⟨s, hs, rfl⟩ := Option.map_eq_some_iff.1 ha
    exact ho s hs
  by_cases hdelete : c.intent = .delete
  · have hbuild := (RecordSound.absorbRecord hc hlayout hq).build_eq
    have hcurrent := (c.current_merged o).2 hdelete
    rw [← RecordEntryChange.pending_merged] at hbuild
    simp [RecordEntryChange.ofState?, RecordEntryChange.act, hbuild, hcurrent, hdelete]
  · have hcurrent : (c.merged o).state.current ≠ .delete := fun h =>
      hdelete ((c.current_merged o).1 h)
    have hrecord : RecordContinues c.change (o.map RecordEntryState.pending) := by
      cases o with
      | none => exact recordContinues_iff.2 (by simp)
      | some s => exact (hcontinues hdelete s rfl).2
    obtain ⟨x, hx, houtline⟩ := outline_applyRecord_absorbRecord hc hmerges hq hrecord hd
      (e := (o.bind fun s => RecordEntryChange.ofState? (k, s)).elim d fun x => x.act d) (by
        intro hupdate
        cases o with
        | none => rfl
        | some s =>
            have hstays := (hcontinues hdelete s rfl).1 hupdate
            simp [RecordEntryChange.ofState?, RecordEntryChange.act, (ho s rfl).build_eq, hstays,
              recordAfter])
    rw [← RecordEntryChange.pending_merged] at hx
    simp only [RecordEntryChange.ofState?, RecordEntryChange.act, hx, hcurrent, hdelete,
      Option.map_some, Option.elim_some, if_false]
    exact congrArg some houtline

/-- Applying what is merged is applying one after the other, key by key. -/
theorem outlineEntries_applyEntries {m : String} {cs : List (RecordEntryChange Change)}
    (hcs : ∀ c ∈ cs, c.change.layout = models m ∧ c.change.WellFormed models)
    (hsorted : Keyed.Sorted RecordEntryChange.key cs)
    (hmerges : ∀ c ∈ cs, MergesAsApplied models c.change)
    {pending : Keyed (RecordEntryState Accumulator)} (hpending : Keyed.Ascending pending)
    (hrecords : ∀ e ∈ pending, RecordSound models m e.2.pending)
    (hcontinues : EntriesContinue cs pending) {es : Keyed Draft} (hes : Keyed.Ascending es)
    (hfits : ∀ k, Draft.FitsField models m (Keyed.find? k es)) :
    outlineEntries (Change.applyEntries (settleEntries (absorbEntries cs pending)) es) =
      outlineEntries (Change.applyEntries cs (Change.applyEntries (settleEntries pending) es)) := by
  have hmerged : Keyed.Ascending (absorbEntries cs pending) := by
    rw [absorbEntries_eq_foldl]
    exact Keyed.ascending_foldl_merge RecordEntryChange.mergeEntry_eq cs hpending
  have hbetween := RecordEntryChange.ascending_applyEntries (settleEntries pending) hes
  have houtline : ∀ {es : Keyed Draft}, Keyed.Ascending es →
      Keyed.Ascending (outlineEntries es) := by
    intro es hes
    rw [outlineEntries_eq_map]
    exact List.pairwise_map.2 hes
  refine Keyed.ext_find? (houtline (RecordEntryChange.ascending_applyEntries _ hes))
    (houtline (RecordEntryChange.ascending_applyEntries _ hbetween)) fun k => ?_
  rw [outlineEntries_eq_map, outlineEntries_eq_map, Keyed.find?_map, Keyed.find?_map,
    RecordEntryChange.find?_applyEntries (tabulates_settleEntries hmerged) hes,
    RecordEntryChange.find?_applyEntries hsorted.tabulates hbetween, absorbEntries_eq_foldl,
    Keyed.find?_foldl_merge RecordEntryChange.mergeEntry_eq hsorted.tabulates,
    RecordEntryChange.find?_applyEntries (tabulates_settleEntries hpending) hes]
  cases hc : cs.find? fun c => c.key = k with
  | none => rfl
  | some c =>
      have hmem := List.mem_of_find?_eq_some hc
      obtain rfl : c.key = k := by simpa using List.find?_some hc
      rw [Option.elim_some, Option.elim_some, Option.bind_some]
      exact outline_act_merged (hcs c hmem).2 (hcs c hmem).1 (hmerges c hmem)
        (fun s hs => hrecords (c.key, s) ((Keyed.mem_iff_find? hpending c.key s).2 hs))
        (entriesContinue_iff.1 hcontinues c hmem) (hfits c.key) c.key

/-! ### Merging whole changes -/

theorem outlineWorking_merged {kind : FieldKind} {p : Payload Change}
    (hp : p.WellFormed models kind)
    (ih : ∀ c ∈ p.changes, c.WellFormed models → MergesAsApplied models c)
    {q : Pending Accumulator} (hq : PendingSound models kind q) (hcontinues : PayloadContinues p q)
    {w : Working Draft} (hw : WorkingCoheres models kind w) (hplain : WorkingPlain w) :
    outlineWorking (applySettled (absorbPayload p q) w) =
      outlineWorking (Change.applyPayload p (applySettled q w)) := by
  have hconforms := hp.conforms
  cases kind <;> cases p <;> simp only [Change.PayloadConforms] at hconforms
  · rw [absorbPayload, applySettled, settle]
    simp [Change.applyPayload]
  · rw [absorbPayload, applySettled, settle]
    simp [Change.applyPayload]
  · next m c =>
    obtain ⟨a, rfl, ha⟩ := pendingSound_nested.1 hq
    obtain ⟨d, rfl, hd⟩ := workingCoheres_nested.1 hw
    have hfits := Draft.fitsField_of_coheres hd hplain
    obtain ⟨x, hx, houtline⟩ := outline_applyRecord_absorbRecord hp.nested.2
      (ih c (by simp [Payload.changes]) hp.nested.2) ha hcontinues hfits fun _ => rfl
    rw [absorbPayload_nested, applySettled_nested, applySettled_nested, Option.bind_some, hx,
      Change.applyPayload_nested, outlineWorking_nested, outlineWorking_nested]
    exact congrArg (fun d => Working.nested (some d)) houtline
  · next k cs =>
    obtain ⟨pending, rfl, hpending⟩ := pendingSound_keySet.1 hq
    obtain ⟨ms, rfl, hms⟩ := workingCoheres_keySet.1 hw
    rw [absorbPayload, applySettled_keySet, applySettled_keySet, Change.applyPayload,
      MemberChange.applyAll_mergeAll cs hpending hms]
  · next k t cs =>
    obtain ⟨pending, rfl, hpending, hvalues⟩ := pendingSound_valueMap.1 hq
    obtain ⟨es, rfl, hes, -⟩ := workingCoheres_valueMap.1 hw
    rw [absorbPayload, applySettled_valueMap, applySettled_valueMap, Change.applyPayload,
      EntryChange.applyAll_mergeAll hp.valued hpending
        (fun e he => (hvalues e he).1) hes hplain]
  · next k m cs =>
    obtain ⟨pending, rfl, hpending, hrecords⟩ := pendingSound_modelMap.1 hq
    obtain ⟨es, rfl, hes, hentries⟩ := workingCoheres_modelMap.1 hw
    obtain ⟨-, hsorted, hcs⟩ := hp.modelMap
    rw [absorbPayload, applySettled_modelMap, applySettled_modelMap, Change.applyPayload,
      outlineWorking, outlineWorking, outlineEntries_applyEntries hcs hsorted
        (fun c hc => ih c.change (List.mem_map_of_mem hc) (hcs c hc).2) hpending hrecords hcontinues
        hes (Draft.fitsField_find? hentries (entriesPlain_iff.1 hplain))]

/-- The fields of a record side by side: the kind of each, what a well-formed change carries for it,
what is pending for it, and its slot in a draft.  Of the changes below, `R` is known. -/
inductive Aligned (models : String → Layout) (R : Change → Prop) :
    List FieldKind → List (Option (Payload Change)) → List (Pending Accumulator) →
      List (Slot Snapshot Draft) → Prop
  | nil : Aligned models R [] [] [] []
  | silent {kind : FieldKind} {kinds : List FieldKind} {ps : List (Option (Payload Change))}
      {q : Pending Accumulator} {qs : List (Pending Accumulator)} {s : Slot Snapshot Draft}
      {ss : List (Slot Snapshot Draft)} (hrest : Aligned models R kinds ps qs ss) :
      Aligned models R (kind :: kinds) (none :: ps) (q :: qs) (s :: ss)
  | told {kind : FieldKind} {kinds : List FieldKind} {p : Payload Change}
      {ps : List (Option (Payload Change))} {q : Pending Accumulator}
      {qs : List (Pending Accumulator)} {s : Slot Snapshot Draft} {ss : List (Slot Snapshot Draft)}
      (hp : p.WellFormed models kind) (hbelow : ∀ c ∈ p.changes, R c)
      (hq : PendingSound models kind q) (hw : WorkingCoheres models kind s.working)
      (hplain : WorkingPlain s.working) (hrest : Aligned models R kinds ps qs ss) :
      Aligned models R (kind :: kinds) (some p :: ps) (q :: qs) (s :: ss)

theorem aligned_of_wellFormed {R : Change → Prop} {kinds : List FieldKind}
    {ps : List (Option (Payload Change))} {qs : List (Pending Accumulator)}
    {ss : List (Slot Snapshot Draft)}
    (hps : List.Forall₂ (fun kind p => ∀ q ∈ p, q.WellFormed models kind) kinds ps)
    (hqs : List.Forall₂ (PendingSound models) kinds qs)
    (hss : List.Forall₂ (SlotCoheres models) kinds ss) (hplain : ∀ s ∈ ss, SlotPlain s)
    (hbelow : ∀ p, some p ∈ ps → ∀ c ∈ p.changes, R c) : Aligned models R kinds ps qs ss := by
  induction hps generalizing qs ss with
  | nil =>
      cases hqs
      cases hss
      exact .nil
  | @cons kind p kinds ps hp hps ih =>
      cases hqs with
      | cons hq hqs =>
          cases hss with
          | cons hs hss =>
              rw [List.forall_mem_cons] at hplain
              have hrest := ih hqs hss hplain.2 fun p hp => hbelow p (List.mem_cons_of_mem _ hp)
              cases p with
              | none => exact .silent hrest
              | some p =>
                  exact .told (hp p rfl) (hbelow p (by simp)) hq (workingCoheres_working hs)
                    (workingPlain_working hplain.1) hrest

theorem mergesAsApplied {c : Change} (hc : c.WellFormed models) : MergesAsApplied models c := by
  induction c using Change.induction with
  | step c ih =>
      intro qs ss hqs hss hplain hcontinues
      have haligned := aligned_of_wellFormed hc.fields hqs hss hplain ih
      clear hqs hss hplain
      generalize c.fields = ps at haligned hcontinues
      generalize c.layout.kinds = kinds at haligned
      induction haligned with
      | nil => simp [absorbFields, applyPending, settleFields, Change.applyFields]
      | silent _ ihrest =>
          rw [FieldsContinue] at hcontinues
          rw [absorbFields, applyPending_cons, applyPending_cons, Change.applyFields,
            List.map_cons, List.map_cons, ihrest hcontinues]
      | told hp hbelow hq hw hplain _ ihrest =>
          rw [FieldsContinue] at hcontinues
          have hslot := outlineWorking_merged hp hbelow hq hcontinues.1 hw hplain
          obtain ⟨hsound, htouched⟩ := sound_absorbPayload hp (fun _ _ h => keepsSound h) hq
          rw [← isSome_settle hsound] at htouched
          rw [absorbFields, applyPending_cons, applyPending_cons, Change.applyFields,
            List.map_cons, List.map_cons, ihrest hcontinues.2, applySlot_settle_of_isSome htouched,
            working_applySlot_settle, outlineSlot_touched, outlineSlot_touched, hslot]

end Accumulator

end VersionedRecords
