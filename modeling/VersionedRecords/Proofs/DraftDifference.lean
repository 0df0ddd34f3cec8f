import VersionedRecords.Proofs.Editing
import VersionedRecords.Proofs.Sharing

/-!
Comparing drafts without building them.

A comparison walks through a draft slot by slot: what is untouched is compared as the snapshot it
is, what is touched as a working copy, and a draft of a deleted record counts as absent.  The
outcome is the one for the content of the draft, and so the one that building the draft first would
give.
-/

namespace VersionedRecords

namespace Draft

variable {models : String → Layout}

theorem diffSlots_eq_zipWith (base : List (Value Snapshot)) (slots : List (Slot Snapshot Draft)) :
    diffSlots base slots = List.zipWith diffSlot base slots := by
  induction base generalizing slots with
  | nil => simp [diffSlots]
  | cons r base ih => cases slots <;> simp [diffSlots, ih]

theorem diffFrom_eq (intent : Intent) (base : List (Value Snapshot)) (d : Draft) :
    d.diffFrom intent base =
      Accumulator.gather d.layout intent d.key (List.zipWith diffSlot base d.slots) := by
  obtain ⟨layout, key, reference, lastIntent, slots⟩ := d
  rw [diffFrom, diffSlots_eq_zipWith]

theorem of_diffFrom {d : Draft} {intent : Intent} {base : List (Value Snapshot)} {c : Change}
    (hc : d.diffFrom intent base = some c) : c.identity = d.identity ∧ c.intent = intent := by
  rw [diffFrom_eq] at hc
  exact Accumulator.of_gather_eq_some hc

theorem diffFrom_edit (intent : Intent) (base : List (Value Snapshot)) (s : Snapshot) :
    s.edit.diffFrom intent base = s.diffFrom intent base := by
  rw [diffFrom_eq, Snapshot.diffFrom_eq]
  simp [Snapshot.edit, List.zipWith_map_right, diffSlot]

/-- Comparing the draft gives what comparing its content gives. -/
def DiffsAsContent (models : String → Layout) (d : Draft) : Prop :=
  ∀ s, d.content = some s → ∀ intent base, Snapshot.IsBase models d.layout base →
    d.diffFrom intent base = s.diffFrom intent base

/-- What leads from an optional sub-record to a draft that is there. -/
def changeFrom? (r : Option Snapshot) (d : Draft) : Option Change :=
  match r with
  | none => d.diffFrom .add d.layout.zeros
  | some r =>
    if r.identity = d.identity then d.diffFrom .update r.fields
    else d.diffFrom .add d.layout.zeros

theorem changeFrom?_eq {r : Option Snapshot}
    (hr : ∀ t ∈ r, t.Conforms models ∧ t.isPlain = true) {d : Draft}
    (hd : d.DiffsAsContent models) {s : Snapshot} (hs : d.content = some s) :
    changeFrom? r d = Snapshot.recordChange? r (some s) := by
  have hidentity := identity_of_content hs
  have hlayout : s.layout = d.layout := congrArg Identity.layout hidentity
  have hadd := hd s hs .add d.layout.zeros (Snapshot.isBase_zeros d.layout)
  cases r with
  | none => simp [changeFrom?, Snapshot.recordChange?, hlayout, hadd]
  | some r =>
      obtain ⟨hconforms, hplain⟩ := hr r rfl
      by_cases hsame : r.identity = d.identity
      · have hbase := Snapshot.isBase_fields hconforms hplain (congrArg Identity.layout hsame)
        simp [changeFrom?, Snapshot.recordChange?, hidentity, hsame,
          hd s hs .update r.fields hbase]
      · simp [changeFrom?, Snapshot.recordChange?, hidentity, hsame, hlayout, hadd]

theorem diffWorking_nested_some (r : Option Snapshot) (d : Draft) :
    diffWorking (.nested r) (.nested (some d)) =
      (if d.isDeleted then r.bind Snapshot.teardown else changeFrom? r d).map .nested := by
  cases r with
  | none =>
      rw [diffWorking, changeFrom?]
      split <;> rfl
  | some r =>
      rw [diffWorking, changeFrom?]
      split
      · rfl
      · split <;> rfl

theorem diffWorking_nested {r : Option Snapshot}
    (hr : ∀ t ∈ r, t.Conforms models ∧ t.isPlain = true) {d : Option Draft}
    (hd : ∀ e ∈ d, e.DiffsAsContent models) :
    diffWorking (.nested r) (.nested d) =
      (Snapshot.recordChange? r (d.bind content)).map .nested := by
  cases d with
  | none => cases r <;> simp [diffWorking, Snapshot.recordChange?]
  | some e =>
      cases hs : e.content with
      | none =>
          rw [diffWorking_nested_some, content_eq_none_iff.1 hs, if_pos rfl, Option.bind_some, hs]
          cases r <;> rfl
      | some s =>
          rw [diffWorking_nested_some, isDeleted_of_content hs, if_neg Bool.false_ne_true,
            Option.bind_some, hs, changeFrom?_eq hr (hd e rfl) hs]

/-- The change of one entry of a map of drafts, given the entries that were. -/
def entryDiff? (reference : Keyed Snapshot) (e : Key × Draft) :
    Option (RecordEntryChange Change) :=
  if e.2.isDeleted then none
  else match Keyed.find? e.1 reference with
    | none => (e.2.diffFrom .add e.2.layout.zeros).map (⟨.add, e.1, ·⟩)
    | some r =>
      if r.identity = e.2.identity then (e.2.diffFrom .update r.fields).map (⟨.update, e.1, ·⟩)
      else (e.2.diffFrom .add e.2.layout.zeros).map (⟨.update, e.1, ·⟩)

theorem diffEntries_cons (reference : Keyed Snapshot) (e : Key × Draft) (es : List (Key × Draft)) :
    diffEntries reference (e :: es) =
      match entryDiff? reference e with
      | some c => c :: diffEntries reference es
      | none => diffEntries reference es := by
  obtain ⟨k, d⟩ := e
  rw [diffEntries]
  rfl

theorem diffEntries_eq_filterMap (reference : Keyed Snapshot) (es : Keyed Draft) :
    diffEntries reference es = es.filterMap (entryDiff? reference) := by
  induction es with
  | nil => simp [diffEntries]
  | cons e es ih =>
      rw [diffEntries_cons, List.filterMap_cons, ← ih]
      cases entryDiff? reference e <;> rfl

theorem entryDiff?_of_live (reference : Keyed Snapshot) {e : Key × Draft}
    (he : e.2.isDeleted = false) :
    entryDiff? reference e = (changeFrom? (Keyed.find? e.1 reference) e.2).map
      (⟨(Keyed.find? e.1 reference).elim .add fun _ => .update, e.1, ·⟩) := by
  rw [entryDiff?, he, if_neg Bool.false_ne_true]
  cases Keyed.find? e.1 reference with
  | none => rfl
  | some r =>
      dsimp only [changeFrom?, Option.elim_some]
      split <;> rfl

theorem entryDiff?_eq {reference : Keyed Snapshot} {e : Key × Draft}
    (hreference : ∀ r, Keyed.find? e.1 reference = some r →
      r.Conforms models ∧ r.isPlain = true)
    (he : e.2.DiffsAsContent models) :
    entryDiff? reference e = (entryContent? e).bind (Snapshot.entryDiff? reference) := by
  rw [entryContent?]
  cases hs : e.2.content with
  | none => simp [entryDiff?, content_eq_none_iff.1 hs]
  | some s =>
      have hentry := @Snapshot.entryDiff?_eq models reference (e.1, s) hreference
      rw [entryDiff?_of_live reference (isDeleted_of_content hs), Option.map_some,
        Option.bind_some, hentry, changeFrom?_eq hreference he hs]
      cases Keyed.find? e.1 reference <;> rfl

theorem betweenDrafts_eq {es : Keyed Snapshot} {es' : Keyed Draft} (hes : Keyed.Ascending es)
    (hes' : Keyed.Ascending es') (hentries : ∀ e ∈ es, e.2.Conforms models ∧ e.2.isPlain = true)
    (ih : ∀ e ∈ es', e.2.DiffsAsContent models) :
    RecordEntryChange.betweenDrafts es es' = RecordEntryChange.between es (contentEntries es') := by
  have hreference : ∀ k r, Keyed.find? k es = some r → r.Conforms models ∧ r.isPlain = true :=
    fun k r hr => hentries (k, r) ((Keyed.mem_iff_find? hes k r).2 hr)
  have hthere : diffEntries es es' = Snapshot.diffEntries es (contentEntries es') := by
    rw [diffEntries_eq_filterMap, Snapshot.diffEntries_eq_filterMap, contentEntries_eq_filterMap,
      List.filterMap_filterMap]
    exact List.filterMap_congr fun e he => entryDiff?_eq (hreference e.1) (ih e he)
  have hhas : ∀ k, ((Keyed.find? k es').any fun d => !d.isDeleted) =
      Keyed.has k (contentEntries es') := by
    intro k
    rw [Keyed.has, find?_contentEntries hes']
    cases Keyed.find? k es' with
    | none => rfl
    | some d =>
        cases hs : d.content with
        | none => simp [hs, content_eq_none_iff.1 hs]
        | some s => simp [hs, isDeleted_of_content hs]
  rw [RecordEntryChange.betweenDrafts, RecordEntryChange.between, hthere]
  simp only [hhas]

theorem diffWorking_eq {kind : FieldKind} {r : Value Snapshot} {w : Working Draft}
    (hr : Snapshot.ValueConforms models kind r) (hplain : Snapshot.plainValue r = true)
    (hw : WorkingCoheres models kind w) (ih : ∀ d ∈ w.drafts, d.DiffsAsContent models) :
    diffWorking r w = Snapshot.diffValue r (contentWorking w) := by
  cases kind with
  | scalar t =>
      obtain ⟨x, rfl, -⟩ := Snapshot.valueConforms_scalar.1 hr
      obtain ⟨y, rfl, -⟩ := workingCoheres_scalar.1 hw
      rw [contentWorking, diffWorking, Snapshot.diffValue]
  | attached t =>
      obtain ⟨x, rfl, -⟩ := Snapshot.valueConforms_attached.1 hr
      obtain ⟨y, rfl, -⟩ := workingCoheres_attached.1 hw
      rw [contentWorking, diffWorking, Snapshot.diffValue]
  | nested m =>
      obtain ⟨r, rfl, hrecord⟩ := Snapshot.valueConforms_nested.1 hr
      obtain ⟨d, rfl, -⟩ := workingCoheres_nested.1 hw
      have hall : ∀ t ∈ r, t.Conforms models ∧ t.isPlain = true :=
        fun t ht => ⟨(hrecord t ht).2, Snapshot.plainValue_nested.1 hplain t ht⟩
      rw [contentWorking_nested, Snapshot.diffValue_nested hall,
        diffWorking_nested hall fun e he => ih e (by simpa [Working.drafts] using he)]
  | keySet k =>
      obtain ⟨o, ms, rfl, hms⟩ := Snapshot.valueConforms_keySet.1 hr
      obtain ⟨ms', rfl, -⟩ := workingCoheres_keySet.1 hw
      rw [contentWorking, diffWorking, Snapshot.diffValue_keySet hms]
  | valueMap k t =>
      obtain ⟨o, es, rfl, hes, -⟩ := Snapshot.valueConforms_valueMap.1 hr
      obtain ⟨es', rfl, -, -⟩ := workingCoheres_valueMap.1 hw
      simp only [Snapshot.plainValue, List.all_eq_true] at hplain
      rw [contentWorking, diffWorking, Snapshot.diffValue_valueMap hes hplain]
  | modelMap k m =>
      obtain ⟨o, es, rfl, hes, hentries⟩ := Snapshot.valueConforms_modelMap.1 hr
      obtain ⟨es', rfl, hes', -⟩ := workingCoheres_modelMap.1 hw
      rw [Snapshot.plainValue, Snapshot.plainEntries_iff] at hplain
      have hall : ∀ e ∈ es, e.2.Conforms models ∧ e.2.isPlain = true :=
        fun e he => ⟨(hentries e he).2, hplain e he⟩
      have hbetween := betweenDrafts_eq hes hes' hall fun e he => ih e.2 (List.mem_map_of_mem he)
      rw [contentWorking, diffWorking, Snapshot.diffValue_modelMap hes hall, ← hbetween]
      rfl

theorem diffSlot_eq {kind : FieldKind} {r : Value Snapshot} {s : Slot Snapshot Draft}
    (hr : Snapshot.ValueConforms models kind r) (hplain : Snapshot.plainValue r = true)
    (hs : SlotCoheres models kind s)
    (ih : ∀ w, s = .touched w → ∀ d ∈ w.drafts, d.DiffsAsContent models) :
    diffSlot r s = Snapshot.diffValue r (contentSlot s) := by
  cases s with
  | touched w => exact diffWorking_eq hr hplain hs (ih w rfl)
  | deferred v =>
      exact (Snapshot.diffValue_bareValue hr hs hplain fun t _ ht =>
        Snapshot.diffsByContent_of_conforms ht).symm

/-- Comparing a coherent draft gives what comparing its content gives. -/
theorem diffsAsContent_of_coherent {d : Draft} (hd : d.Coherent models) :
    d.DiffsAsContent models := by
  induction d using Draft.induction with
  | step d ih =>
      intro s hs intent base hbase
      have hdeleted := isDeleted_of_content hs
      rw [content_eq, hdeleted] at hs
      cases hs
      have hslots : List.zipWith diffSlot base d.slots =
          List.zipWith Snapshot.diffValue base (d.slots.map contentSlot) := by
        refine zipWith_eq_zipWith_map hbase.conforms (coherent_iff.1 hd).2 ?_
        intro kind r slot hr hslot hrc hsc
        refine diffSlot_eq hrc (hbase.plain r hr) hsc ?_
        rintro w rfl e he
        exact ih w hslot e he (coherent_of_mem_slots hd hslot he)
      rw [diffFrom_eq, Snapshot.diffFrom_eq, hslots]

/-! ### What a draft was begun over -/

/-- The values of the fields that a draft was begun over; zeros if it was begun from nothing. -/
def baseValues (d : Draft) : List (Value Snapshot) :=
  d.reference.elim d.layout.zeros Snapshot.fields

theorem diff_eq_diffFrom (d : Draft) : d.diff = d.diffFrom d.ownIntent d.baseValues := by
  unfold diff baseValues
  cases d.reference <;> rfl

theorem ownIntent_eq_delete_iff {d : Draft} :
    d.ownIntent = .delete ↔ d.isDeleted = true := by
  unfold ownIntent
  cases d.isDeleted <;> cases d.reference.isNone <;> simp

theorem Coherent.of_reference {d : Draft} (hd : d.Coherent models) {r : Snapshot}
    (hr : d.reference = some r) : r.identity = d.identity ∧ r.Conforms models := by
  have hgrounded := (coherent_iff.1 hd).1
  rw [hr] at hgrounded
  exact ⟨hgrounded.1, hgrounded.2.1⟩

theorem Coherent.isBase_baseValues {d : Draft} (hd : d.Coherent models)
    (hplain : ∀ r ∈ d.reference, r.isPlain = true) :
    Snapshot.IsBase models d.layout d.baseValues := by
  unfold baseValues
  cases hreference : d.reference with
  | none => exact Snapshot.isBase_zeros d.layout
  | some r =>
      obtain ⟨hidentity, hconforms⟩ := hd.of_reference hreference
      exact Snapshot.isBase_fields hconforms (hplain r hreference)
        (congrArg Identity.layout hidentity)

/-! ### Building first makes no difference -/

theorem diffFrom_build {d : Draft} (hd : d.Coherent models) {m : Snapshot}
    (hm : d.content = some m.bare) (intent : Intent) {base : List (Value Snapshot)}
    (hbase : Snapshot.IsBase models d.layout base) :
    d.diffFrom intent base = m.diffFrom intent base := by
  have hmodels : m.Conforms models := Snapshot.conforms_bare.1 (conforms_content hd hm)
  have hlayout : m.layout = d.layout := by
    have hidentity := identity_of_content hm
    rw [Snapshot.identity_bare] at hidentity
    exact congrArg Identity.layout hidentity
  rw [diffsAsContent_of_coherent hd m.bare hm intent base hbase]
  exact Snapshot.diffsByContent_of_conforms hmodels intent base (hlayout ▸ hbase)

theorem diffAgainst_eq (d : Draft) (intent : Intent) {r : Snapshot} (hkey : r.key = d.key) :
    d.diffAgainst intent r = .ok (d.diffFrom intent r.fields) := by
  rw [diffAgainst, requireSameKey, if_pos hkey.symm]
  rfl

/-- A draft that nothing was done to is torn down as its reference, any other one as what it builds;
either way the content is the same. -/
theorem toChange_delete {d : Draft} (hd : d.Coherent models) (hdeleted : d.isDeleted = false)
    {m : Snapshot} (hm : d.content = some m.bare) : d.toChange .delete = m.teardown := by
  have hmodels : m.Conforms models := Snapshot.conforms_bare.1 (conforms_content hd hm)
  have hsame : ∀ s : Snapshot, s.Conforms models → s.bare = m.bare → s.teardown = m.teardown := by
    intro s hs hbare
    rw [← Snapshot.teardown_bare hs, hbare, Snapshot.teardown_bare hmodels]
  obtain ⟨s, hs, hcontent⟩ := exists_build hd hdeleted 0
  have hbare : s.bare = m.bare := Option.some.inj (hcontent.symm.trans hm)
  have hbuilt := hsame s (Snapshot.conforms_bare.1 (conforms_content hd hcontent)) hbare
  rw [toChange, hs]
  cases hreference : d.reference with
  | none => simpa [buildsReference, hreference] using hbuilt
  | some r =>
      cases hbuilds : d.buildsReference with
      | false => simpa using hbuilt
      | true =>
          simp only [buildsReference, isTouched, Bool.and_eq_true, Bool.not_eq_true'] at hbuilds
          have hgrounded := (coherent_iff.1 hd).1
          rw [hreference] at hgrounded
          have huntouched := content_of_untouched hgrounded hdeleted hbuilds.1.2
          exact hsame r hgrounded.2.1 (Option.some.inj (huntouched.symm.trans hm))

/-- Comparing a draft with a version of its record, and describing it as a change, gives what
building the draft first and then comparing and describing the result gives. -/
theorem diff_eq_diff_build {d : Draft} (hd : d.Reachable models)
    (hlast : d.lastIntent ≠ some .delete) (stamp : Nat) :
    ∃ m, d.build stamp = some m ∧
      (∀ r : Snapshot, r.Conforms models → r.isPlain = true → r.identity = d.identity →
        ∀ intent, ∃ c, d.diffAgainst intent r = .ok c ∧ m.edit.diffAgainst intent r = .ok c) ∧
      ∀ intent, d.toChange intent = m.toChange intent := by
  have hcoherent := hd.coherent
  have hdeleted : d.isDeleted = false := by simpa [isDeleted] using hlast
  obtain ⟨m, hm, hcontent⟩ := exists_build hcoherent hdeleted stamp
  have hidentity : m.identity = d.identity := by
    rw [← Snapshot.identity_bare]
    exact identity_of_content hcontent
  refine ⟨m, hm, ?_, ?_⟩
  · intro r hr hplain hsame intent
    have hbase := Snapshot.isBase_fields hr hplain (congrArg Identity.layout hsame)
    refine ⟨d.diffFrom intent r.fields, diffAgainst_eq d intent (congrArg Identity.key hsame), ?_⟩
    rw [diffAgainst_eq m.edit intent (congrArg Identity.key (hsame.trans hidentity.symm)),
      diffFrom_edit, diffFrom_build hcoherent hcontent intent hbase]
  · have hzeros := @Snapshot.isBase_zeros models d.layout
    have hlayout : m.layout = d.layout := congrArg Identity.layout hidentity
    have hfull : ∀ intent, d.diffFrom intent d.layout.zeros = m.diffFrom intent m.layout.zeros := by
      intro intent
      rw [hlayout, diffFrom_build hcoherent hcontent intent hzeros]
    intro intent
    cases intent with
    | delete => exact toChange_delete hcoherent hdeleted hcontent
    | add => exact hfull .add
    | update => exact hfull .update

/-- A node loses the node below it. -/
theorem diff_eq_diff_build_of_pruned :
    ∃ m c, ((Edit.field "children" (.remove (.int 7))).run (Samples.family "leaf").edit).1.build 2
        = some m ∧
      ((Edit.field "children" (.remove (.int 7))).run (Samples.family "leaf").edit).1.diffAgainst
        .update (Samples.family "leaf") = .ok c ∧
      m.edit.diffAgainst .update (Samples.family "leaf") = .ok c := by
  have hreachable : Reachable Samples.nodes
      ((Edit.field "children" (.remove (.int 7))).run (Samples.family "leaf").edit).1 :=
    .run (.edit (Samples.conforms_family "leaf")) (.field fun _ _ _ _ => .remove _)
  obtain ⟨m, hm, hdiff, -⟩ := diff_eq_diff_build hreachable (by decide) 2
  obtain ⟨c, hd, hmc⟩ := hdiff (Samples.family "leaf") (Samples.conforms_family "leaf")
    (Samples.isPlain_family "leaf") rfl .update
  exact ⟨m, c, hm, hd, hmc⟩

end Draft

end VersionedRecords
