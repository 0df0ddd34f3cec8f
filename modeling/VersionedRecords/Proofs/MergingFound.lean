import VersionedRecords.Proofs.Suiting

/-!
Merging what comparisons find.

A change that suits what pending changes lead to continues them.  So merging what is found between
two versions into something that leads to the first of them gives something that leads to the
second, whatever has been created, changed and deleted in between.
-/

namespace VersionedRecords

/-! ### Versions of one record -/

namespace Snapshot

variable {models : String → Layout}

/-- The version of a record, or the record of zeros if there is none. -/
def orEmpty (identity : Identity) (s : Option Snapshot) : Snapshot :=
  s.getD (empty identity.layout identity.key .zero)

theorem identity_orEmpty {identity : Identity} {s : Option Snapshot}
    (hs : ∀ t ∈ s, t.identity = identity) : (orEmpty identity s).identity = identity := by
  cases s with
  | none => rfl
  | some s => exact hs s rfl

theorem conforms_orEmpty (identity : Identity) {s : Option Snapshot}
    (hs : ∀ t ∈ s, t.Conforms models) : (orEmpty identity s).Conforms models := by
  cases s with
  | none => exact conforms_empty identity.layout identity.key .zero
  | some s => exact hs s rfl

theorem isPlain_orEmpty (identity : Identity) {s : Option Snapshot}
    (hs : ∀ t ∈ s, t.isPlain = true) : (orEmpty identity s).isPlain = true := by
  cases s with
  | none => exact isPlain_empty identity.layout identity.key .zero
  | some s => exact hs s rfl

/-- What becomes of a record is a difference in every case, that of a record that is not there
being one from zeros or to zeros. -/
theorem diffFrom_of_recordChange? {identity : Identity} {r s : Option Snapshot}
    (hr : ∀ t ∈ r, t.identity = identity ∧ t.Conforms models)
    (hs : ∀ t ∈ s, t.identity = identity) {c : Change} (hc : recordChange? r s = some c) :
    (orEmpty identity s).diffFrom c.intent (orEmpty identity r).fields = some c ∧
      (c.intent = .delete ↔ s = none) ∧ (r = none → c.intent = .add) := by
  obtain ⟨v, rfl, rfl, hdelete⟩ | ⟨v, w, rfl, rfl, -, hupdate⟩ | ⟨w, rfl, hdiffer, hadd⟩ :=
    recordChange?_cases hc
  · obtain ⟨rfl, hconforms⟩ := hr v rfl
    have hintent := (of_teardown hdelete).2
    rw [teardown_eq_diffFrom hconforms] at hdelete
    rw [hintent]
    exact ⟨hdelete, by simp, by simp⟩
  · rw [(of_diffFrom hupdate).2]
    exact ⟨hupdate, by simp, by simp⟩
  · obtain rfl := hs w rfl
    obtain rfl : r = none := Option.eq_none_iff_forall_ne_some.2 fun v hv =>
      hdiffer v hv (hr v hv).1
    rw [(of_diffFrom hadd).2]
    exact ⟨hadd, by simp, by simp⟩

end Snapshot

/-! ### A change that suits continues what is pending -/

namespace Accumulator

open Draft

variable {models : String → Layout}

/-- The change continues whatever is pending if it suits what that leads to. -/
def ContinuesIfSuits (models : String → Layout) (c : Change) : Prop :=
  ∀ qs ss, List.Forall₂ (PendingSound models) c.layout.kinds qs →
    List.Forall₂ (SlotCoheres models) c.layout.kinds ss → (∀ s ∈ ss, SlotPlain s) →
    Change.FieldsSuit c.fields ((applyPending qs ss).map contentSlot) → FieldsContinue c.fields qs

/-- An update that suits what pending changes make of a sub-record is of the same sub-record, which
is not to be deleted, and suits the fields as they are then. -/
theorem of_recordSuits_recordAfter {m : String} {c : Change} {a : Accumulator}
    (ha : RecordSound models m a) {d : Option Draft}
    (hsuits : Change.RecordSuits c ((recordAfter (build a) d).bind content))
    (hupdate : c.intent = .update) :
    a.identity = c.identity ∧ a.state.current ≠ .delete ∧
      Change.FieldsSuit c.fields
        ((applyPending a.fields (Change.ground a.state.current a.identity d).slots).map
          contentSlot) := by
  obtain ⟨r, hr, hri, hfields⟩ := Change.recordSuits_iff.1 hsuits hupdate
  have hground := Change.identity_ground a.state.current a.identity d
  rw [recordAfter_build ha, Option.bind_some, Option.mem_def] at hr
  have hidentity : a.identity = c.identity :=
    ((identity_of_content hr).trans ((Change.identity_applyTo _ _).trans hground)).symm.trans hri
  have hcurrent : a.state.current ≠ .delete := by
    intro hdelete
    rw [content_applyTo_delete hdelete] at hr
    cases hr
  rw [content_applyTo_of_ne_delete hcurrent] at hr
  cases hr
  exact ⟨hidentity, hcurrent, hfields⟩

theorem recordContinues_of_suits {m : String} {c : Change} (hc : ContinuesIfSuits models c)
    {a : Accumulator} (ha : RecordSound models m a) {d : Option Draft}
    (hd : Draft.FitsField models m d)
    (hsuits : Change.RecordSuits c ((recordAfter (build a) d).bind content)) :
    RecordContinues c (some a) := by
  refine recordContinues_iff.2 fun hupdate b hb => ?_
  obtain rfl := Option.some.inj hb
  obtain ⟨hidentity, hcurrent, hfields⟩ := of_recordSuits_recordAfter ha hsuits hupdate
  refine ⟨hidentity, hcurrent, ?_⟩
  have hground := Change.identity_ground a.state.current a.identity d
  obtain ⟨-, -, -, hsound⟩ := recordSound_iff.1 ha
  obtain ⟨hcoherent, hplain⟩ := fitsField_ground hd a.state.current a.identity
  have hal : a.layout = c.layout := congrArg Identity.layout hidentity
  have hgl : (Change.ground a.state.current a.identity d).layout = c.layout :=
    congrArg Identity.layout (hground.trans hidentity)
  exact hc a.fields _ (hal ▸ hsound) (hgl ▸ (coherent_iff.1 hcoherent).2) (plain_iff.1 hplain)
    hfields

/-- The same for an entry, where what is pending may be its deletion. -/
theorem entryContinues_of_suits {m : String} {c : Change} (hc : ContinuesIfSuits models c)
    {k : Key} {s : RecordEntryState Accumulator} (hs : RecordSound models m s.pending)
    {d : Option Draft} (hd : Draft.FitsField models m d)
    (hsuits : Change.RecordSuits c
      (((RecordEntryChange.ofState? (k, s)).elim d fun x => x.act d).bind content)) :
    (c.intent = .update → s.state.current ≠ .delete) ∧ RecordContinues c (some s.pending) := by
  rw [RecordEntryChange.ofState?, hs.build_eq, Option.map_some, Option.elim_some,
    RecordEntryChange.act] at hsuits
  by_cases hcurrent : s.state.current = .delete
  · have hnot : c.intent ≠ .update := by
      intro hupdate
      obtain ⟨r, hr, -⟩ := Change.recordSuits_iff.1 hsuits hupdate
      simp [hcurrent] at hr
    exact ⟨fun hupdate => absurd hupdate hnot,
      recordContinues_iff.2 fun hupdate => absurd hupdate hnot⟩
  · rw [if_neg hcurrent] at hsuits
    exact ⟨fun _ => hcurrent, recordContinues_of_suits hc hs hd (by rwa [hs.build_eq])⟩

theorem payloadContinues_of_suits {kind : FieldKind} {p : Payload Change}
    (hp : p.WellFormed models kind)
    (ih : ∀ c ∈ p.changes, c.WellFormed models → ContinuesIfSuits models c)
    {q : Pending Accumulator} (hq : PendingSound models kind q) {w : Working Draft}
    (hw : WorkingCoheres models kind w) (hplain : WorkingPlain w)
    (hsuits : Change.PayloadSuits p (contentWorking (applySettled q w))) :
    PayloadContinues p q := by
  have hconforms := hp.conforms
  cases kind <;> cases p <;> simp only [Change.PayloadConforms] at hconforms
  · simp [PayloadContinues]
  · simp [PayloadContinues]
  · next m c =>
    obtain ⟨a, rfl, ha⟩ := pendingSound_nested.1 hq
    obtain ⟨d, rfl, hd⟩ := workingCoheres_nested.1 hw
    have hfits := Draft.fitsField_of_coheres hd hplain
    rw [applySettled_nested, contentWorking_nested] at hsuits
    rw [PayloadContinues]
    cases a with
    | none => exact recordContinues_iff.2 (by simp)
    | some a =>
        exact recordContinues_of_suits (ih c (by simp [Payload.changes]) hp.nested.2) (ha a rfl)
          hfits hsuits
  · simp [PayloadContinues]
  · simp [PayloadContinues]
  · next k m cs =>
    obtain ⟨pending, rfl, hpending, hrecords⟩ := pendingSound_modelMap.1 hq
    obtain ⟨es, rfl, hes, hentries⟩ := workingCoheres_modelMap.1 hw
    obtain ⟨-, -, hcs⟩ := hp.modelMap
    have happlied := RecordEntryChange.ascending_applyEntries (settleEntries pending) hes
    rw [applySettled_modelMap, contentWorking] at hsuits
    refine entriesContinue_iff.2 fun c hc hdelete s hs => ?_
    have ha := hrecords (c.key, s) ((Keyed.mem_iff_find? hpending c.key s).2 hs)
    have hfits := Draft.fitsField_find? hentries (entriesPlain_iff.1 hplain) c.key
    have hrecord := Change.entriesSuit_iff.1 hsuits c hc hdelete
    rw [find?_contentEntries happlied,
      RecordEntryChange.find?_applyEntries (tabulates_settleEntries hpending) hes,
      Option.mem_def.1 hs, Option.bind_some] at hrecord
    exact entryContinues_of_suits (ih c.change (List.mem_map_of_mem hc) (hcs c hc).2) ha hfits
      hrecord

theorem continuesIfSuits {c : Change} (hc : c.WellFormed models) : ContinuesIfSuits models c := by
  induction c using Change.induction with
  | step c ih =>
      intro qs ss hqs hss hplain hsuits
      have haligned := aligned_of_wellFormed hc.fields hqs hss hplain ih
      clear hqs hss hplain
      generalize c.fields = ps at haligned hsuits ⊢
      generalize c.layout.kinds = kinds at haligned
      induction haligned with
      | nil => simp [FieldsContinue]
      | silent _ ihrest =>
          rw [applyPending_cons, List.map_cons, Change.FieldsSuit] at hsuits
          rw [FieldsContinue]
          exact ihrest hsuits
      | told hp hbelow hq hw hplain _ ihrest =>
          rw [applyPending_cons, List.map_cons, Change.FieldsSuit, ← Change.contentWorking_working,
            working_applySlot_settle] at hsuits
          rw [FieldsContinue]
          exact ⟨payloadContinues_of_suits hp hbelow hq hw hplain hsuits.1, ihrest hsuits.2⟩

/-! ### Merging what is found -/

theorem map_contentSlot_congr {ss ts : List (Slot Snapshot Draft)}
    (h : ss.map outlineSlot = ts.map outlineSlot) : ss.map contentSlot = ts.map contentSlot := by
  have hcontent : ∀ ss : List (Slot Snapshot Draft),
      (ss.map outlineSlot).map contentSlot = ss.map contentSlot := by
    intro ss
    rw [List.map_map]
    exact List.map_congr_left fun s _ => contentSlot_outlineSlot fun _ _ d _ => content_outline d
  rw [← hcontent ss, h, hcontent ts]

theorem slotsCohere_applyPending {kinds : List FieldKind} {qs : List (Pending Accumulator)}
    (hqs : List.Forall₂ (PendingSound models) kinds qs) {ss : List (Slot Snapshot Draft)}
    (hss : List.Forall₂ (SlotCoheres models) kinds ss) :
    List.Forall₂ (SlotCoheres models) kinds (applyPending qs ss) := by
  induction hqs generalizing ss with
  | nil =>
      cases hss
      exact .nil
  | @cons kind q kinds qs hq hqs ih =>
      cases hss with
      | @cons _ s _ ss hs hss =>
          rw [applyPending_cons]
          refine .cons ?_ (ih hss)
          cases hp : settle q with
          | none => exact hs
          | some p =>
              exact Change.workingCoheres_applyPayload
                (payloadConforms_settle hq (fun _ _ => tellsConforming _) p hp)
                (fun _ _ hc => Change.keepsCoherence_of_conforms hc) (workingCoheres_working hs)

/-- What is pending for no field changes none. -/
theorem applyPending_of_untouched {kinds : List FieldKind} {qs : List (Pending Accumulator)}
    (hqs : List.Forall₂ (PendingSound models) kinds qs)
    (huntouched : qs.any Pending.isTouched = false) (ss : List (Slot Snapshot Draft)) :
    applyPending qs ss = ss := by
  induction hqs generalizing ss with
  | nil => simp [applyPending, settleFields, Change.applyFields]
  | @cons kind q kinds qs hq hqs ih =>
      rw [List.any_cons, Bool.or_eq_false_iff] at huntouched
      cases ss with
      | nil => simp [applyPending, Change.applyFields]
      | cons s ss =>
          have hnone : settle q = none := by
            rw [← Option.not_isSome_iff_eq_none, isSome_settle hq, huntouched.1]
            decide
          rw [applyPending_cons, hnone, ih huntouched.2]
          rfl

/-- What is pending for the fields takes them from one content to another, in every draft. -/
structure Turns (models : String → Layout) (kinds : List FieldKind)
    (before : List (Value Snapshot)) (qs : List (Pending Accumulator))
    (after : List (Value Snapshot)) : Prop where
  sound : List.Forall₂ (PendingSound models) kinds qs
  content_eq : ∀ ss, List.Forall₂ (SlotCoheres models) kinds ss → (∀ s ∈ ss, SlotPlain s) →
    ss.map contentSlot = before → (applyPending qs ss).map contentSlot = after

theorem turns_zeros (kinds : List FieldKind) (values : List (Value Snapshot)) :
    Turns models kinds values (kinds.map Pending.zero) values where
  sound := forall₂_sound_zeros kinds
  content_eq ss _ _ hcontent := by
    have hzeros : List.Forall₂ (PendingSound models) kinds (kinds.map Pending.zero) :=
      forall₂_sound_zeros kinds
    rw [applyPending_of_untouched hzeros]
    · exact hcontent
    · rw [List.any_map, List.any_eq_false]
      intro kind _
      cases kind <;> simp [Pending.zero, Pending.isTouched]

/-- Values that nobody has touched, as a draft has them. -/
theorem slots_deferred {layout : Layout} {base : List (Value Snapshot)}
    (hbase : Snapshot.IsBase models layout base) :
    List.Forall₂ (SlotCoheres models) layout.kinds (base.map .deferred) ∧
      (∀ s ∈ base.map Slot.deferred, SlotPlain s) ∧
      (base.map Slot.deferred).map contentSlot = base.map Snapshot.bareValue := by
  refine ⟨List.forall₂_map_right_iff.2 hbase.conforms, fun s hs => ?_, List.map_map⟩
  obtain ⟨v, hv, rfl⟩ := List.mem_map.1 hs
  exact hbase.plain v hv

/-- What leaves the fields untouched takes them nowhere. -/
theorem Turns.eq_of_untouched {layout : Layout} {base after : List (Value Snapshot)}
    {qs : List (Pending Accumulator)} (hbase : Snapshot.IsBase models layout base)
    (h : Turns models layout.kinds (base.map Snapshot.bareValue) qs after)
    (huntouched : qs.any Pending.isTouched = false) : base.map Snapshot.bareValue = after := by
  obtain ⟨hcoheres, hplain, hcontent⟩ := slots_deferred hbase
  rw [← h.content_eq _ hcoheres hplain hcontent, applyPending_of_untouched h.sound huntouched,
    hcontent]

/-- Merging a change into what leads to a content that the change suits gives what leads to what the
change makes of that content. -/
theorem Turns.absorb_of_suits {c : Change} (hwf : c.WellFormed models)
    {before base after : List (Value Snapshot)} (hbase : Snapshot.IsBase models c.layout base)
    {qs : List (Pending Accumulator)}
    (h : Turns models c.layout.kinds before qs (base.map Snapshot.bareValue))
    (hsuits : Change.FieldsSuit c.fields (base.map Snapshot.bareValue))
    (hacts : (Change.applyFields c.fields (base.map .deferred)).map contentSlot = after) :
    Turns models c.layout.kinds before (absorbFields c.fields qs) after := by
  obtain ⟨hcoheres, -, hdeferred⟩ := slots_deferred hbase
  refine ⟨(keepsSound hwf qs h.sound).1, fun ss hss hssp hcontent => ?_⟩
  have hpending := h.content_eq ss hss hssp hcontent
  have hcontinues := continuesIfSuits hwf qs ss h.sound hss hssp (by rwa [hpending])
  -- the draft that the pending changes make has the content of the untouched base
  calc (applyPending (absorbFields c.fields qs) ss).map contentSlot
      = (Change.applyFields c.fields (applyPending qs ss)).map contentSlot :=
        map_contentSlot_congr (mergesAsApplied hwf qs ss h.sound hss hssp hcontinues)
    _ = (Change.applyFields c.fields (base.map .deferred)).map contentSlot :=
        Change.actsOnContent hwf _ _ (slotsCohere_applyPending h.sound hss) hcoheres
          (hpending.trans hdeferred.symm) (by rwa [hdeferred])
    _ = after := hacts

/-- What leads from a base to a record makes the content of the record from that of the base. -/
theorem contents_applyFields_of_diffFrom {t : Snapshot} (ht : t.Conforms models)
    (hplain : t.isPlain = true) {base : List (Value Snapshot)}
    (hbase : Snapshot.IsBase models t.layout base) {intent : Intent} {c : Change}
    (hc : t.diffFrom intent base = some c) :
    (Change.applyFields c.fields (base.map .deferred)).map contentSlot =
      t.fields.map Snapshot.bareValue := by
  have hfields : c.fields = t.payloads base := by
    rw [Snapshot.diffFrom_eq_ite ht hbase] at hc
    obtain ⟨-, hc⟩ := Option.ite_none_left_eq_some.1 hc
    cases hc
    rfl
  calc (Change.applyFields c.fields (base.map .deferred)).map contentSlot
      = List.zipWith patchedContent (t.payloads base) base := by
        rw [hfields]
        refine map_contentSlot_applyFields ?_ ?_
        · exact List.forall₂_map_left_iff.2 (List.forall₂_same.2 fun _ _ => .inl rfl)
        · rw [List.length_map, Snapshot.length_payloads ht hbase, hbase.conforms.length_eq]
    _ = t.fields.map Snapshot.bareValue :=
        (Snapshot.patches_of_conforms ht hplain base base hbase hbase).2
          (Snapshot.follows_self ht hbase.conforms)

/-- Merging what leads from a base to a record into what leads to the base gives what leads to the
record. -/
theorem Turns.absorb {t : Snapshot} (ht : t.Conforms models) (hplain : t.isPlain = true)
    {before base : List (Value Snapshot)} (hbase : Snapshot.IsBase models t.layout base)
    {qs : List (Pending Accumulator)}
    (h : Turns models t.layout.kinds before qs (base.map Snapshot.bareValue)) {intent : Intent}
    {c : Change} (hc : t.diffFrom intent base = some c) :
    Turns models t.layout.kinds before (absorbFields c.fields qs)
      (t.fields.map Snapshot.bareValue) := by
  have hwf := Snapshot.wellFormed_of_diffFrom ht hplain hbase hc
  have hsuits := (Snapshot.findsSuiting_of_conforms ht hplain intent base hbase c hc).2
  have hacts := contents_applyFields_of_diffFrom ht hplain hbase hc
  rw [← Snapshot.layout_of_diffFrom hc] at h hbase ⊢
  exact h.absorb_of_suits hwf hbase hsuits hacts

end Accumulator

end VersionedRecords
