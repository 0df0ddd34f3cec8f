import VersionedRecords.Proofs.Merging

/-!
Changes that suit a version.

A change suits a version of its record if each update of a sub-record in it meets a version of that
very sub-record.  What a comparison finds suits what it was found against, and the content of a
draft alone decides which content a change that suits it leaves behind.
-/

namespace VersionedRecords

namespace Change

mutual

/-- Each update of a sub-record meets a version of that sub-record. -/
def FieldsSuit : List (Option (Payload Change)) → List (Value Snapshot) → Prop
  | none :: ps, _ :: vs => FieldsSuit ps vs
  | some p :: ps, v :: vs => PayloadSuits p v ∧ FieldsSuit ps vs
  | _, _ => True

def PayloadSuits : Payload Change → Value Snapshot → Prop
  | .nested c, .nested s => RecordSuits c s
  | .modelMap cs, .modelMap _ es => EntriesSuit cs es
  | _, _ => True

/-- If the change updates a sub-record, then there is a version of it, and the change suits that. -/
def RecordSuits : Change → Option Snapshot → Prop
  | ⟨layout, intent, key, fields⟩, s =>
    intent = .update → ∃ r ∈ s, r.identity = ⟨layout, key⟩ ∧ FieldsSuit fields r.fields

def EntriesSuit : List (RecordEntryChange Change) → Keyed Snapshot → Prop
  | [], _ => True
  | ⟨intent, key, c⟩ :: cs, es =>
    (intent ≠ .delete → RecordSuits c (Keyed.find? key es)) ∧ EntriesSuit cs es

end

theorem recordSuits_iff {c : Change} {s : Option Snapshot} :
    RecordSuits c s ↔
      (c.intent = .update → ∃ r ∈ s, r.identity = c.identity ∧ FieldsSuit c.fields r.fields) := by
  obtain ⟨layout, intent, key, fields⟩ := c
  rw [RecordSuits]
  rfl

theorem recordSuits_of_ne_update {c : Change} (hintent : c.intent ≠ .update)
    (s : Option Snapshot) : RecordSuits c s :=
  recordSuits_iff.2 fun hupdate => absurd hupdate hintent

theorem entriesSuit_iff {cs : List (RecordEntryChange Change)} {es : Keyed Snapshot} :
    EntriesSuit cs es ↔
      ∀ c ∈ cs, c.intent ≠ .delete → RecordSuits c.change (Keyed.find? c.key es) := by
  induction cs with
  | nil => simp [EntriesSuit]
  | cons c cs ih => rw [EntriesSuit, ih, List.forall_mem_cons]

end Change

/-! ### What a comparison finds -/

theorem EntryChange.valued_of_ofKey? {reference current : Keyed Datum}
    (hplain : ∀ k, ∀ v ∈ Keyed.find? k current, v.isPlain = true) {k : Key} {c : EntryChange}
    (h : ofKey? reference current k = some c) : c.Valued := by
  refine ⟨?_, fun v hv => hplain k v (find?_of_ofKey? h hv)⟩
  unfold ofKey? ofPair? at h
  cases hcurrent : Keyed.find? k current with
  | none =>
      rw [hcurrent, Option.elim_none] at h
      obtain ⟨v, -, hc⟩ := Option.bind_eq_some_iff.1 h
      cases hc
      exact fun hne => absurd rfl hne
  | some v =>
      rw [hcurrent, Option.elim_some] at h
      split at h
      · cases h
        simp
      · split at h
        · cases h
        · cases h
          simp

theorem EntryChange.valued_of_mem_sorted {reference current : Keyed Datum}
    (hr : Keyed.Ascending reference) (hc : Keyed.Ascending current)
    (hplain : ∀ e ∈ current, e.2.isPlain = true) {c : EntryChange}
    (hmem : c ∈ settle (collect (between reference current))) : c.Valued := by
  have htable := tabulates_settle_collect (tabulates_between hr hc)
  exact valued_of_ofKey? (fun k v hv => hplain (k, v) ((Keyed.mem_iff_find? hc k v).2 hv))
    ((htable.mem_iff c.key c).2 ⟨hmem, rfl⟩)

namespace Snapshot

variable {models : String → Layout}

/-- Tearing a value down is what leads from it to the zero of its kind. -/
theorem teardownValue_eq {kind : FieldKind} {v : Value Snapshot}
    (hv : ValueConforms models kind v) : teardownValue kind v = diffValue v (.zero kind) := by
  cases kind with
  | scalar t =>
      obtain ⟨x, rfl, -⟩ := valueConforms_scalar.1 hv
      rw [teardownValue, Value.zero, diffValue]
  | attached t =>
      obtain ⟨x, rfl, -⟩ := valueConforms_attached.1 hv
      cases x <;> simp [teardownValue, Value.zero, diffValue, Datum.sameOption]
  | nested m =>
      obtain ⟨s, rfl, -⟩ := valueConforms_nested.1 hv
      cases s <;> simp [teardownValue, Value.zero, diffValue]
  | keySet k =>
      obtain ⟨o, ms, rfl, hms⟩ := valueConforms_keySet.1 hv
      rw [teardownValue, Value.zero, diffValue_keySet hms]
  | valueMap k t =>
      obtain ⟨o, es, rfl, hes, -⟩ := valueConforms_valueMap.1 hv
      cases es with
      | nil => simp [teardownValue, Value.zero, diffValue, EntryChange.between, nonEmpty?]
      | cons e es => simp [teardownValue, Value.zero, diffValue]
  | modelMap k m =>
      obtain ⟨o, es, rfl, -⟩ := valueConforms_modelMap.1 hv
      cases es with
      | nil => simp [teardownValue, Value.zero, diffValue, teardownEntries, diffEntries, nonEmpty?]
      | cons e es =>
          simp [teardownValue, Value.zero, diffValue, identicalEntries, diffEntries, Keyed.has]

/-- Deleting a record leads from it to a record of zeros. -/
theorem teardown_eq_diffFrom {s : Snapshot} (hs : s.Conforms models) :
    s.teardown = (empty s.layout s.key .zero).diffFrom .delete s.fields := by
  rw [teardown_eq, diffFrom_eq]
  have hfields : List.zipWith teardownValue s.layout.kinds s.fields =
      List.zipWith diffValue s.fields s.layout.zeros := by
    have hconforms := conforms_iff.1 hs
    rw [Layout.zeros]
    generalize s.fields = vs at hconforms
    generalize s.layout.kinds = kinds at hconforms
    induction hconforms with
    | nil => rfl
    | cons hv hvs ih =>
        rw [List.zipWith_cons_cons, teardownValue_eq hv, ih, List.map_cons, List.zipWith_cons_cons]
  rw [hfields]
  rfl

/-- What a comparison with the values finds sets entries to plain values and suits the values. -/
def FindsSuiting (models : String → Layout) (t : Snapshot) : Prop :=
  ∀ intent base, IsBase models t.layout base → ∀ c ∈ t.diffFrom intent base,
    c.Valued ∧ Change.FieldsSuit c.fields (base.map bareValue)

theorem suits_recordChange? {m : String} {base current : Option Snapshot}
    (hbase : FitsField models m base) (hgone : ∀ r ∈ base, ∀ c ∈ r.teardown, c.Valued)
    (ih : ∀ t ∈ current, t.FindsSuiting models) {c : Change}
    (hc : recordChange? base current = some c) :
    c.Valued ∧ Change.RecordSuits c (base.map bare) := by
  obtain ⟨r, rfl, rfl, hdelete⟩ | ⟨r, t, rfl, rfl, hidentity, hupdate⟩ | ⟨t, rfl, -, hadd⟩ :=
    recordChange?_cases hc
  · have hintent := (of_teardown hdelete).2
    exact ⟨hgone r rfl c hdelete, Change.recordSuits_of_ne_update (by rw [hintent]; decide) _⟩
  · obtain ⟨-, hconforms, hplain⟩ := hbase r rfl
    have hrbase := isBase_fields hconforms hplain (congrArg Identity.layout hidentity)
    obtain ⟨hvalued, hsuits⟩ := ih t rfl _ _ hrbase c hupdate
    refine ⟨hvalued, Change.recordSuits_iff.2 fun _ => ⟨r.bare, rfl, ?_, ?_⟩⟩
    · rw [identity_bare, hidentity, (of_diffFrom hupdate).1]
    · rwa [fields_bare]
  · have hintent := (of_diffFrom hadd).2
    exact ⟨(ih t rfl _ _ (isBase_zeros t.layout) c hadd).1,
      Change.recordSuits_of_ne_update (by rw [hintent]; decide) _⟩

/-- What has become of the records of a map suits what there was of each. -/
theorem suits_sorted {m : String} {base current : Keyed Snapshot}
    (hbase : FitsEntries models m base) (hcurrent : FitsEntries models m current)
    (hgone : ∀ e ∈ base, ∀ c ∈ e.2.teardown, c.Valued)
    (ih : ∀ e ∈ current, e.2.FindsSuiting models) :
    ∀ c ∈ RecordEntryChange.sorted (RecordEntryChange.between base current),
      c.change.Valued ∧ Change.RecordSuits c.change ((Keyed.find? c.key base).map bare) := by
  intro c hc
  obtain ⟨-, hchange⟩ := of_mem_sorted_between hbase hcurrent hc
  refine suits_recordChange? (hbase.find? c.key) (fun s hs => ?_) (fun t ht => ?_) hchange
  · exact hgone (c.key, s) (Keyed.mem_of_find? hs)
  · exact ih (c.key, t) (Keyed.mem_of_find? ht)

theorem suits_diffValue {kind : FieldKind} {r v : Value Snapshot}
    (hr : ValueConforms models kind r) (hv : ValueConforms models kind v)
    (hrp : plainValue r = true) (hvp : plainValue v = true)
    (hgone : ∀ s ∈ r.records, s.Conforms models → s.isPlain = true → ∀ c ∈ s.teardown, c.Valued)
    (ih : ∀ t ∈ v.records, t.Conforms models → t.isPlain = true → t.FindsSuiting models) :
    ∀ p ∈ diffValue r v,
      Change.PayloadValued p.sorted ∧ Change.PayloadSuits p.sorted (bareValue r) := by
  intro p hp
  cases found_of_mem_diffValue hr hv hrp hvp hp with
  | scalar => exact ⟨trivial, trivial⟩
  | attached => exact ⟨trivial, trivial⟩
  | nested hx hy hc =>
      rw [bareValue_nested]
      refine suits_recordChange? hx (fun s hs => ?_) (fun t ht => ?_) hc
      · exact hgone s (by simpa [Value.records] using hs) (hx s hs).2.1 (hx s hs).2.2
      · exact ih t (by simpa [Value.records] using ht) (hy t ht).2.1 (hy t ht).2.2
  | keySet => exact ⟨trivial, trivial⟩
  | valueMap _ _ hx hy _ hyp =>
      exact ⟨fun c hc => EntryChange.valued_of_mem_sorted hx hy hyp hc, trivial⟩
  | modelMap _ _ hx hy =>
      have hentry := suits_sorted hx hy
        (fun e he => hgone e.2 (List.mem_map_of_mem he) (hx.fits e he).2.1 (hx.fits e he).2.2)
        fun e he => ih e.2 (List.mem_map_of_mem he) (hy.fits e he).2.1 (hy.fits e he).2.2
      refine ⟨Change.entriesValued_iff.2 fun c hc => (hentry c hc).1, ?_⟩
      rw [bareValue]
      refine Change.entriesSuit_iff.2 fun c hc _ => ?_
      rw [find?_bareEntries]
      exact (hentry c hc).2

theorem suits_payloads {kinds : List FieldKind} {rs vs : List (Value Snapshot)}
    (hrs : List.Forall₂ (ValueConforms models) kinds rs)
    (hvs : List.Forall₂ (ValueConforms models) kinds vs)
    (hrp : ∀ r ∈ rs, plainValue r = true) (hvp : ∀ v ∈ vs, plainValue v = true)
    (hgone : ∀ r ∈ rs, ∀ s ∈ r.records, s.Conforms models → s.isPlain = true →
      ∀ c ∈ s.teardown, c.Valued)
    (ih : ∀ v ∈ vs, ∀ t ∈ v.records, t.Conforms models → t.isPlain = true →
      t.FindsSuiting models) :
    (∀ p, some p ∈ (List.zipWith diffValue rs vs).map (Option.map Payload.sorted) →
        Change.PayloadValued p) ∧
      Change.FieldsSuit ((List.zipWith diffValue rs vs).map (Option.map Payload.sorted))
        (rs.map bareValue) := by
  induction hrs generalizing vs with
  | nil =>
      cases hvs
      simp [Change.FieldsSuit]
  | @cons kind r kinds rs hr hrs ihrs =>
      cases hvs with
      | @cons _ v _ vs hv hvs =>
          rw [List.forall_mem_cons] at hrp hvp hgone ih
          obtain ⟨hvalued, hsuits⟩ := ihrs hvs hrp.2 hvp.2 hgone.2 ih.2
          have hhead := suits_diffValue hr hv hrp.1 hvp.1 hgone.1 ih.1
          rw [List.zipWith_cons_cons, List.map_cons, List.map_cons]
          cases hdiff : diffValue r v with
          | none =>
              rw [Option.map_none, Change.FieldsSuit]
              refine ⟨fun q hq => ?_, hsuits⟩
              exact hvalued q ((List.mem_cons.1 hq).resolve_left (by simp))
          | some p =>
              obtain ⟨hpv, hps⟩ := hhead p hdiff
              rw [Option.map_some, Change.FieldsSuit]
              refine ⟨fun q hq => ?_, hps, hsuits⟩
              rcases List.mem_cons.1 hq with hq | hq
              · obtain rfl := Option.some.inj hq
                exact hpv
              · exact hvalued q hq

theorem records_of_mem_zeros {layout : Layout} {v : Value Snapshot} (hv : v ∈ layout.zeros) :
    v.records = [] := by
  obtain ⟨kind, -, rfl⟩ := List.mem_map.1 hv
  cases kind <;> rfl

/-- The deletion of the record sets entries to plain values only, for it sets none. -/
theorem valued_of_teardown {s : Snapshot} (hs : s.Conforms models) (hplain : s.isPlain = true) :
    ∀ c ∈ s.teardown, c.Valued := by
  induction s using Snapshot.induction with
  | step s ih =>
      intro c hc
      have hbase : IsBase models s.layout s.fields := isBase_fields hs hplain rfl
      have hempty := @conforms_empty models s.layout s.key .zero
      have hvalued := (suits_payloads hbase.conforms (forall₂_conforms_zeros s.layout) hbase.plain
        (fun _ hv => plainValue_of_mem_zeros hv) ih
        fun v hv t ht => by simp [records_of_mem_zeros hv] at ht).1
      rw [Option.mem_def, teardown_eq_diffFrom hs, diffFrom_eq_ite hempty hbase] at hc
      obtain ⟨-, hc⟩ := Option.ite_none_left_eq_some.1 hc
      cases hc
      exact Change.valued_iff.2 hvalued

/-- Whatever leads from plain values to a plain record sets entries to plain values and suits the
values it leads from. -/
theorem findsSuiting_of_conforms {t : Snapshot} (ht : t.Conforms models)
    (hplain : t.isPlain = true) : t.FindsSuiting models := by
  induction t using Snapshot.induction with
  | step t ih =>
      intro intent base hbase c hc
      obtain ⟨hvalued, hsuits⟩ := suits_payloads hbase.conforms (conforms_iff.1 ht) hbase.plain
        (isPlain_iff.1 hplain) (fun _ _ _ _ hs hsp => valued_of_teardown hs hsp) ih
      rw [Option.mem_def, diffFrom_eq_ite ht hbase] at hc
      obtain ⟨-, hc⟩ := Option.ite_none_left_eq_some.1 hc
      cases hc
      exact ⟨Change.valued_iff.2 hvalued, hsuits⟩

theorem wellFormed_of_diffFrom {t : Snapshot} (ht : t.Conforms models) (hplain : t.isPlain = true)
    {intent : Intent} {base : List (Value Snapshot)} (hbase : IsBase models t.layout base)
    {c : Change} (hc : t.diffFrom intent base = some c) : c.WellFormed models where
  conforms := findsConforming_of_conforms ht hplain intent base hbase c hc
  canonical := (diffsProperly_of_conforms ht).canonical hbase.conforms hc
  valued := (findsSuiting_of_conforms ht hplain intent base hbase c hc).1

end Snapshot

/-! ### What a change that suits makes of a draft -/

namespace Draft

theorem fields_of_content {d : Draft} {s : Snapshot} (h : d.content = some s) :
    s.fields = d.slots.map contentSlot := by
  rw [content_eq] at h
  split at h
  · cases h
  · cases h
    rfl

theorem content_applyTo_of_ne_delete {c : Change} (hintent : c.intent ≠ .delete) (d : Draft) :
    (c.applyTo d).content =
      some ⟨d.layout, d.key, .zero, (Change.applyFields c.fields d.slots).map contentSlot⟩ := by
  rw [Change.applyTo_eq, if_neg hintent, content_eq, if_neg]
  simpa [isDeleted] using hintent

end Draft

namespace Change

open Draft

variable {models : String → Layout}

/-- The contents decide which contents the change leaves behind if it suits them. -/
def ActsOnContent (models : String → Layout) (c : Change) : Prop :=
  ∀ ss ts, List.Forall₂ (SlotCoheres models) c.layout.kinds ss →
    List.Forall₂ (SlotCoheres models) c.layout.kinds ts →
    ss.map contentSlot = ts.map contentSlot → FieldsSuit c.fields (ts.map contentSlot) →
    (applyFields c.fields ss).map contentSlot = (applyFields c.fields ts).map contentSlot

theorem content_applyRecord_congr {c : Change} (hc : c.ActsOnContent models) {d e : Option Draft}
    (hd : ∀ x ∈ d, x.Coherent models) (he : ∀ x ∈ e, x.Coherent models)
    (hcontent : d.bind content = e.bind content) (hsuits : RecordSuits c (e.bind content)) :
    (c.applyRecord d).content = (c.applyRecord e).content := by
  by_cases hupdate : c.intent = .update
  · obtain ⟨r, hr, hidentity, hfields⟩ := recordSuits_iff.1 hsuits hupdate
    obtain ⟨y, rfl, hy⟩ := Option.bind_eq_some_iff.1 hr
    obtain ⟨x, rfl, hx⟩ := Option.bind_eq_some_iff.1 (hcontent.trans hr)
    have hxi : x.identity = c.identity := (identity_of_content hx).symm.trans hidentity
    have hyi : y.identity = c.identity := (identity_of_content hy).symm.trans hidentity
    have hxl : x.layout = c.layout := congrArg Identity.layout hxi
    have hyl : y.layout = c.layout := congrArg Identity.layout hyi
    have hkey : x.key = y.key := congrArg Identity.key (hxi.trans hyi.symm)
    have hslots := hc x.slots y.slots (hxl ▸ (coherent_iff.1 (hd x rfl)).2)
      (hyl ▸ (coherent_iff.1 (he y rfl)).2)
      ((fields_of_content hx).symm.trans (fields_of_content hy)) (fields_of_content hy ▸ hfields)
    have hadd : c.intent ≠ .add := by rw [hupdate]; decide
    have hdelete : c.intent ≠ .delete := by rw [hupdate]; decide
    rw [applyRecord_of_held hadd hxi, applyRecord_of_held hadd hyi,
      content_applyTo_of_ne_delete hdelete, content_applyTo_of_ne_delete hdelete, hslots, hkey,
      hxl.trans hyl.symm]
  · exact content_congr (outline_applyRecord_of_ne_update hupdate d e)

theorem contentEntries_applyEntries_congr {m : String} {cs : List (RecordEntryChange Change)}
    (hsorted : Keyed.Sorted RecordEntryChange.key cs)
    (hcs : ∀ c ∈ cs, c.change.ActsOnContent models) {es es' : Keyed Draft}
    (hes : Keyed.Ascending es) (hentries : ∀ e ∈ es, e.2.layout = models m ∧ e.2.Coherent models)
    (hes' : Keyed.Ascending es')
    (hentries' : ∀ e ∈ es', e.2.layout = models m ∧ e.2.Coherent models)
    (hcontent : contentEntries es = contentEntries es')
    (hsuits : EntriesSuit cs (contentEntries es')) :
    contentEntries (applyEntries cs es) = contentEntries (applyEntries cs es') := by
  have happlied := RecordEntryChange.ascending_applyEntries cs hes
  have happlied' := RecordEntryChange.ascending_applyEntries cs hes'
  have hcoherent : ∀ {es : Keyed Draft}, Keyed.Ascending es →
      (∀ e ∈ es, e.2.layout = models m ∧ e.2.Coherent models) →
      ∀ k, ∀ x ∈ Keyed.find? k es, x.Coherent models :=
    fun hes h k x hx => (h (k, x) ((Keyed.mem_iff_find? hes k x).2 hx)).2
  refine Keyed.ext_find? (ascending_contentEntries happlied) (ascending_contentEntries happlied')
    fun k => ?_
  have hk : (Keyed.find? k es).bind content = (Keyed.find? k es').bind content := by
    rw [← find?_contentEntries hes, hcontent, find?_contentEntries hes']
  rw [find?_contentEntries happlied, find?_contentEntries happlied',
    RecordEntryChange.find?_applyEntries hsorted.tabulates hes,
    RecordEntryChange.find?_applyEntries hsorted.tabulates hes']
  cases hc : cs.find? fun c => c.key = k with
  | none => exact hk
  | some c =>
      have hmem := List.mem_of_find?_eq_some hc
      obtain rfl : c.key = k := by simpa using List.find?_some hc
      rw [Option.elim_some, Option.elim_some, RecordEntryChange.act, RecordEntryChange.act]
      split
      · rfl
      · next hdelete =>
        have hrecord := entriesSuit_iff.1 hsuits c hmem hdelete
        rw [find?_contentEntries hes'] at hrecord
        exact content_applyRecord_congr (hcs c hmem) (hcoherent hes hentries c.key)
          (hcoherent hes' hentries' c.key) hk hrecord

theorem contentWorking_applyPayload_congr {kind : FieldKind} {p : Payload Change}
    (hp : p.WellFormed models kind)
    (ih : ∀ c ∈ p.changes, c.WellFormed models → c.ActsOnContent models) {w w' : Working Draft}
    (hw : WorkingCoheres models kind w) (hw' : WorkingCoheres models kind w')
    (hcontent : contentWorking w = contentWorking w')
    (hsuits : PayloadSuits p (contentWorking w')) :
    contentWorking (applyPayload p w) = contentWorking (applyPayload p w') := by
  have hconforms := hp.conforms
  cases kind <;> cases p <;> simp only [PayloadConforms] at hconforms
  · rw [applyPayload, applyPayload]
  · rw [applyPayload, applyPayload]
  · next m c =>
    obtain ⟨d, rfl, hd⟩ := workingCoheres_nested.1 hw
    obtain ⟨e, rfl, he⟩ := workingCoheres_nested.1 hw'
    rw [contentWorking_nested, contentWorking_nested, Value.nested.injEq] at hcontent
    rw [contentWorking_nested] at hsuits
    have hrecord := content_applyRecord_congr (ih c (by simp [Payload.changes]) hp.nested.2)
      (fun x hx => (hd x hx).2) (fun x hx => (he x hx).2) hcontent hsuits
    rw [applyPayload_nested, applyPayload_nested, contentWorking_nested, contentWorking_nested]
    exact congrArg Value.nested hrecord
  · next k cs =>
    obtain ⟨ms, rfl, -⟩ := workingCoheres_keySet.1 hw
    obtain ⟨ms', rfl, -⟩ := workingCoheres_keySet.1 hw'
    simp only [contentWorking, Value.keySet.injEq, true_and] at hcontent
    rw [hcontent]
  · next k t cs =>
    obtain ⟨es, rfl, -⟩ := workingCoheres_valueMap.1 hw
    obtain ⟨es', rfl, -⟩ := workingCoheres_valueMap.1 hw'
    simp only [contentWorking, Value.valueMap.injEq, true_and] at hcontent
    rw [hcontent]
  · next k m cs =>
    obtain ⟨es, rfl, hes, hentries⟩ := workingCoheres_modelMap.1 hw
    obtain ⟨es', rfl, hes', hentries'⟩ := workingCoheres_modelMap.1 hw'
    obtain ⟨-, hsorted, hcs⟩ := hp.modelMap
    simp only [contentWorking, Value.modelMap.injEq, true_and] at hcontent
    rw [contentWorking] at hsuits
    rw [applyPayload, applyPayload, contentWorking, contentWorking,
      contentEntries_applyEntries_congr hsorted
        (fun c hc => ih c.change (List.mem_map_of_mem hc) (hcs c hc).2) hes hentries hes' hentries'
        hcontent hsuits]

theorem contentWorking_working (s : Slot Snapshot Draft) :
    contentWorking s.working = contentSlot s := by
  cases s with
  | deferred v => exact contentWorking_materialise v
  | touched w => rfl

theorem actsOnContent {c : Change} (hc : c.WellFormed models) : c.ActsOnContent models := by
  induction c using Change.induction with
  | step c ih =>
      intro ss ts hss hts hcontent hsuits
      have hfields := hc.fields
      generalize c.fields = ps at ih hfields hsuits
      generalize c.layout.kinds = kinds at hss hts hfields
      induction hfields generalizing ss ts with
      | nil => simpa [applyFields] using hcontent
      | @cons kind p kinds ps hp hps ihps =>
          cases hss with
          | @cons _ s _ ss hs hss =>
              cases hts with
              | @cons _ t _ ts ht hts =>
                  rw [List.map_cons, List.map_cons, List.cons.injEq] at hcontent
                  have hih := fun q hq => ih q (List.mem_cons_of_mem _ hq)
                  cases p with
                  | none =>
                      rw [List.map_cons, FieldsSuit] at hsuits
                      have hrest := ihps ss ts hcontent.2 hih hsuits hss hts
                      rw [applyFields, applyFields, List.map_cons, List.map_cons, hcontent.1, hrest]
                  | some p =>
                      rw [List.map_cons, FieldsSuit] at hsuits
                      have hrest := ihps ss ts hcontent.2 hih hsuits.2 hss hts
                      have hslot := contentWorking_applyPayload_congr (hp p rfl) (ih p (by simp))
                        (workingCoheres_working hs) (workingCoheres_working ht)
                        (by rw [contentWorking_working, contentWorking_working, hcontent.1])
                        (by rw [contentWorking_working]; exact hsuits.1)
                      rw [applyFields, applyFields, List.map_cons, List.map_cons, hrest]
                      exact congrArg (· :: _) hslot

end Change

end VersionedRecords
