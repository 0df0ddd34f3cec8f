import VersionedRecords.Proofs.DraftDifference
import VersionedRecords.Proofs.Plainness

/-!
Opening everything first.

A draft over a snapshot opens its fields one by one, as they are edited.  Opening all of them, at
every depth, before anything else is done makes no difference: whatever the edits are, they tell the
same, and what the two drafts build, how they compare with versions of the record and how they are
described as changes is the same.  Only what has been touched differs.

The view that hides what has been touched carries the argument.  No edit can tell what that view
hides, so the two runs stay side by side; and what can be asked of a draft can be asked of its
content, which the view keeps.
-/

namespace VersionedRecords

/-- What an edit has to tell, with everything touched in a draft that it shows. -/
def EditResult.materialise : EditResult → EditResult
  | .shown d => .shown d.materialise
  | r => r

/-- What several edits in order have to tell. -/
def Draft.results : Draft → List Edit → List EditResult
  | _, [] => []
  | d, e :: edits => (e.run d).2 :: results (e.run d).1 edits

/-! ### Edits cannot tell what has been touched -/

/-- Drafts that differ only in what has been touched still do after the edit, which tells the same
of both. -/
def Edit.Blind (e : Edit) : Prop :=
  ∀ d d' : Draft, d.materialise = d'.materialise →
    (e.run d).1.materialise = (e.run d').1.materialise ∧
      (e.run d).2.materialise = (e.run d').2.materialise

/-- The same for the edit of a working copy. -/
def FieldEdit.Blind (e : FieldEdit) : Prop :=
  ∀ w w' : Working Draft, w.map Draft.materialise = w'.map Draft.materialise →
    (e.run w).1.map Draft.materialise = (e.run w').1.map Draft.materialise ∧
      (e.run w).2.materialise = (e.run w').2.materialise

theorem has_of_map_materialise {es es' : Keyed Draft}
    (h : es.map (fun e => (e.1, e.2.materialise)) = es'.map fun e => (e.1, e.2.materialise))
    (k : Key) : Keyed.has k es = Keyed.has k es' := by
  rw [← Keyed.has_map Draft.materialise, h, Keyed.has_map]

theorem FieldEdit.blind_insert (k : Key) : (FieldEdit.insert k).Blind := by
  intro w w' h
  cases w <;> cases w' <;> simp_all [Working.map, FieldEdit.run]

theorem FieldEdit.blind_remove (k : Key) : (FieldEdit.remove k).Blind := by
  intro w w' h
  cases w with
  | modelMap es =>
      cases w' <;> simp only [Working.map, Working.modelMap.injEq, reduceCtorEq] at h
      next es' =>
      have hhas := has_of_map_materialise h k
      rw [FieldEdit.run, FieldEdit.run, Working.map, Working.map, Keyed.map_erase, Keyed.map_erase,
        h, hhas]
      exact ⟨rfl, rfl⟩
  | _ => cases w' <;> simp_all [Working.map, FieldEdit.run]

theorem FieldEdit.blind_clear : FieldEdit.clear.Blind := by
  intro w w' h
  cases w <;> cases w' <;> simp_all [Working.map, FieldEdit.run]

theorem FieldEdit.blind_putValue (k : Key) (v : Datum) : (FieldEdit.putValue k v).Blind := by
  intro w w' h
  cases w <;> cases w' <;> simp_all [Working.map, FieldEdit.run]

theorem FieldEdit.blind_putRecord (k : Key) (d : Draft) : (FieldEdit.putRecord k d).Blind := by
  intro w w' h
  cases w with
  | modelMap es =>
      cases w' <;> simp only [Working.map, Working.modelMap.injEq, reduceCtorEq] at h
      next es' =>
      have hhas := has_of_map_materialise h k
      rw [FieldEdit.run, FieldEdit.run, Working.map, Working.map, Keyed.map_insert,
        Keyed.map_insert, h, hhas]
      exact ⟨rfl, rfl⟩
  | _ => cases w' <;> simp_all [Working.map, FieldEdit.run]

theorem FieldEdit.blind_nested {e : Edit} (he : e.Blind) : (FieldEdit.nested e).Blind := by
  intro w w' h
  cases w with
  | nested d =>
      cases w' <;> simp only [Working.map, Working.nested.injEq, reduceCtorEq] at h
      next d' =>
      cases d with
      | none =>
          obtain rfl : d' = none := by simpa using h.symm
          exact ⟨rfl, rfl⟩
      | some d =>
          cases d' with
          | none => simp at h
          | some d' =>
              obtain ⟨hd, hr⟩ := he d d' (Option.some.inj h)
              rw [FieldEdit.run, FieldEdit.run]
              exact ⟨congrArg (fun d => Working.nested (some d)) hd, hr⟩
  | _ => cases w' <;> simp_all [Working.map, FieldEdit.run]

theorem FieldEdit.blind_entry (k : Key) {e : Edit} (he : e.Blind) :
    (FieldEdit.entry k e).Blind := by
  intro w w' h
  cases w with
  | modelMap es =>
      cases w' <;> simp only [Working.map, Working.modelMap.injEq, reduceCtorEq] at h
      next es' =>
      have hfound : (Keyed.find? k es).map Draft.materialise =
          (Keyed.find? k es').map Draft.materialise := by
        rw [← Keyed.find?_map, ← Keyed.find?_map, h]
      rw [FieldEdit.run, FieldEdit.run]
      cases hd : Keyed.find? k es with
      | none =>
          rw [hd] at hfound
          obtain hd' : Keyed.find? k es' = none := by simpa using hfound.symm
          rw [hd']
          exact ⟨congrArg Working.modelMap h, rfl⟩
      | some d =>
          rw [hd] at hfound
          obtain ⟨d', hd', hdd⟩ := Option.map_eq_some_iff.1 hfound.symm
          obtain ⟨hrun, hr⟩ := he d d' hdd.symm
          rw [hd']
          refine ⟨congrArg Working.modelMap ?_, hr⟩
          rw [Keyed.map_insert, Keyed.map_insert, h, hrun]
  | _ => cases w' <;> simp_all [Working.map, FieldEdit.run]

theorem Edit.blind_apply (c : Change) : (Edit.apply c).Blind := by
  intro d d' h
  have hkey : d.key = d'.key := congrArg Identity.key (Draft.opened.identity_congr h)
  rw [Edit.run_apply, Edit.run_apply, hkey]
  split
  · exact ⟨Draft.opened.keeps c d d' h, rfl⟩
  · exact ⟨h, rfl⟩

theorem Edit.blind_field {name : String} {e : FieldEdit} (he : e.Blind) :
    (Edit.field name e).Blind := by
  intro d d' h
  obtain ⟨hidentity, hreference, hlast, hslots⟩ := Draft.materialise_eq_iff.1 h
  have hlayout : d.layout = d'.layout := congrArg Identity.layout hidentity
  have hslot (i : Nat) :
      d.slots[i]?.map Slot.materialise = d'.slots[i]?.map Slot.materialise := by
    rw [← List.getElem?_map, hslots, List.getElem?_map]
  -- the field is there in both drafts or in neither
  rcases Edit.run_field_cases name e d with ⟨habsent, hrun⟩ | ⟨i, s, hindex, hs, hrun⟩
  · rcases Edit.run_field_cases name e d' with ⟨-, hrun'⟩ | ⟨i, s', hindex, hs', -⟩
    · rw [hrun, hrun']
      exact ⟨h, rfl⟩
    · have hi := hslot i
      rw [habsent i (hlayout ▸ hindex), hs'] at hi
      simp at hi
  · have hi := hslot i
    rw [hs] at hi
    obtain ⟨s', hs', hss⟩ := Option.map_eq_some_iff.1 hi.symm
    rcases Edit.run_field_cases name e d' with ⟨habsent, -⟩ | ⟨j, t, hindex', ht, hrun'⟩
    · rw [habsent i (hlayout ▸ hindex)] at hs'
      cases hs'
    · obtain rfl : i = j := Option.some.inj (hindex.symm.trans (hlayout ▸ hindex'))
      obtain rfl : s' = t := Option.some.inj (hs'.symm.trans ht)
      obtain ⟨hw, hr⟩ := he s.working s'.working (Draft.opened.working_congr hss.symm)
      rw [hrun, hrun']
      refine ⟨Draft.materialise_eq_iff.2 ⟨hidentity, hreference, hlast, ?_⟩, hr⟩
      rw [List.map_set, List.map_set, hslots, Draft.materialise_slot, Draft.materialise_slot,
        Slot.working, Slot.working, hw]

mutual

theorem Edit.blind : (e : Edit) → e.Blind
  | .reset => by
      intro d d' h
      have hlayout : d.layout = d'.layout :=
        congrArg Identity.layout (Draft.opened.identity_congr h)
      rw [Edit.run, Edit.run]
      refine ⟨Draft.opened.update_congr h ?_ none, rfl⟩
      exact congrArg (fun l => (Draft.zeroSlots l).map Slot.materialise) hlayout
  | .materialise => by
      intro d d' h
      rw [Edit.run, Edit.run]
      exact ⟨congrArg Draft.materialise h, rfl⟩
  | .setLastIntent i => by
      intro d d' h
      rw [Edit.run, Edit.run]
      exact ⟨Draft.opened.update_congr h (Draft.opened.slots_congr h) i, rfl⟩
  | .apply c => Edit.blind_apply c
  | .look => by
      intro d d' h
      rw [Edit.run, Edit.run]
      exact ⟨h, congrArg EditResult.shown h⟩
  | .field _ e => Edit.blind_field e.blind

theorem FieldEdit.blind : (e : FieldEdit) → e.Blind
  | .touch => by
      intro w w' h
      rw [FieldEdit.run, FieldEdit.run]
      exact ⟨h, rfl⟩
  | .set w => by
      intro _ _ _
      rw [FieldEdit.run, FieldEdit.run]
      exact ⟨rfl, rfl⟩
  | .insert k => FieldEdit.blind_insert k
  | .remove k => FieldEdit.blind_remove k
  | .clear => FieldEdit.blind_clear
  | .putValue k v => FieldEdit.blind_putValue k v
  | .putRecord k d => FieldEdit.blind_putRecord k d
  | .nested e => FieldEdit.blind_nested e.blind
  | .entry k e => FieldEdit.blind_entry k e.blind

end

namespace Draft

/-- Runs from drafts that differ only in what has been touched stay side by side. -/
theorem edited_congr {d d' : Draft} (h : d.materialise = d'.materialise) (edits : List Edit) :
    (d.edited edits).materialise = (d'.edited edits).materialise ∧
      (d.results edits).map EditResult.materialise =
        (d'.results edits).map EditResult.materialise := by
  induction edits generalizing d d' with
  | nil => exact ⟨h, rfl⟩
  | cons e edits ih =>
      obtain ⟨hrun, hresult⟩ := e.blind d d' h
      obtain ⟨hedited, hresults⟩ := ih hrun
      refine ⟨hedited, ?_⟩
      rw [results, results, List.map_cons, List.map_cons, hresult, hresults]

/-! ### Nor can what is asked of a draft -/

variable {models : String → Layout} {d d' : Draft}

theorem content_congr_opened (h : d.materialise = d'.materialise) : d.content = d'.content := by
  rw [← content_materialise d, h, content_materialise]

theorem isDeleted_congr (h : d.materialise = d'.materialise) : d.isDeleted = d'.isDeleted :=
  congrArg (fun i => i == some Intent.delete) (materialise_eq_iff.1 h).2.2.1

theorem build_congr (hd : d.Coherent models) (hd' : d'.Coherent models)
    (h : d.materialise = d'.materialise) (hdplain : d.Plain) (stamp stamp' : Nat) :
    Option.Rel (fun m m' => m.same m' = true) (d.build stamp) (d'.build stamp') := by
  have hcontent := buildsContent_of_coherent hd stamp []
  have hcontent' := buildsContent_of_coherent hd' stamp' []
  rw [← content_congr_opened h] at hcontent'
  have hplain : ∀ {m : Snapshot}, d.content = some m.bare → m.isPlain = true := by
    intro m hm
    rw [← Snapshot.isPlain_bare]
    exact isPlain_content hdplain hm
  unfold build
  cases hm : d.buildAt stamp [] with
  | none =>
      rw [hm] at hcontent
      rw [← hcontent, Option.map_none, Option.map_eq_none_iff] at hcontent'
      rw [hcontent']
      exact .none
  | some m =>
      rw [hm] at hcontent
      rw [← hcontent] at hcontent'
      obtain ⟨m', hm', hbare⟩ := Option.map_eq_some_iff.1 hcontent'
      rw [hm']
      refine .some ((Snapshot.same_iff_bare_eq (hplain hcontent.symm) (hplain ?_)).2 hbare.symm)
      rw [hbare]
      exact hcontent.symm

/-- A comparison does not look at the last change.  So even a draft of a deleted record is compared
as what it stands for, once the deletion is forgotten. -/
theorem diffFrom_congr (hd : d.Coherent models) (hd' : d'.Coherent models)
    (h : d.materialise = d'.materialise) (intent : Intent) {base : List (Value Snapshot)}
    (hbase : Snapshot.IsBase models d.layout base) :
    d.diffFrom intent base = d'.diffFrom intent base := by
  have hforget (e : Draft) :
      e.diffFrom intent base = (e.setLastIntent none).diffFrom intent base := by
    rw [diffFrom_eq, diffFrom_eq]
    rfl
  have hforgotten : (d.setLastIntent none).materialise = (d'.setLastIntent none).materialise :=
    opened.update_congr h (opened.slots_congr h) none
  have hlayout : d.layout = d'.layout := congrArg Identity.layout (opened.identity_congr h)
  obtain ⟨c, hc⟩ : ∃ c, (d.setLastIntent none).content = some c := by
    rw [content_eq]
    exact ⟨_, rfl⟩
  have hc' : (d'.setLastIntent none).content = some c := by
    rw [← content_congr_opened hforgotten]
    exact hc
  calc d.diffFrom intent base
      = (d.setLastIntent none).diffFrom intent base := hforget d
    _ = c.diffFrom intent base :=
        diffsAsContent_of_coherent (coherent_setLastIntent hd none) c hc intent base hbase
    _ = (d'.setLastIntent none).diffFrom intent base :=
        (diffsAsContent_of_coherent (coherent_setLastIntent hd' none) c hc' intent base
          (hlayout ▸ hbase)).symm
    _ = d'.diffFrom intent base := (hforget d').symm

theorem diff_congr (hd : d.Coherent models) (hd' : d'.Coherent models)
    (h : d.materialise = d'.materialise) (hplain : ∀ r ∈ d.reference, r.isPlain = true) :
    d.diff = d'.diff := by
  have hlayout : d.layout = d'.layout := congrArg Identity.layout (opened.identity_congr h)
  have hreference := (materialise_eq_iff.1 h).2.1
  have hbase : d.baseValues = d'.baseValues := by
    rw [baseValues, baseValues, hlayout, hreference]
  have hintent : d.ownIntent = d'.ownIntent := by
    rw [ownIntent, ownIntent, isDeleted_congr h, hreference]
  rw [diff_eq_diffFrom, diff_eq_diffFrom, ← hbase, ← hintent]
  exact diffFrom_congr hd hd' h d.ownIntent (hd.isBase_baseValues hplain)

theorem toChange_delete_of_isDeleted (hd : d.isDeleted = true) :
    d.toChange .delete = (d.buildEmpty 0).teardown := by
  simp [toChange, buildsReference, build, buildAt_eq, hd]

theorem toChange_congr (hd : d.Coherent models) (hd' : d'.Coherent models)
    (h : d.materialise = d'.materialise) (intent : Intent) :
    d.toChange intent = d'.toChange intent := by
  have hidentity := opened.identity_congr h
  have hlayout : d.layout = d'.layout := congrArg Identity.layout hidentity
  have hkey : d.key = d'.key := congrArg Identity.key hidentity
  have hfull : ∀ intent, d.diffFrom intent d.layout.zeros = d'.diffFrom intent d'.layout.zeros := by
    intro intent
    rw [← hlayout]
    exact diffFrom_congr hd hd' h intent (Snapshot.isBase_zeros d.layout)
  cases intent with
  | add => exact hfull .add
  | update => exact hfull .update
  | delete =>
      have hdeleted := isDeleted_congr h
      cases hdel : d.isDeleted with
      | true =>
          rw [toChange_delete_of_isDeleted hdel, toChange_delete_of_isDeleted (hdeleted ▸ hdel),
            buildEmpty, buildEmpty, hlayout, hkey]
      | false =>
          obtain ⟨m, -, hm⟩ := exists_build hd hdel 0
          rw [toChange_delete hd hdel hm,
            toChange_delete hd' (hdeleted ▸ hdel) (content_congr_opened h ▸ hm)]

/-- The drafts differ at most in what has been touched, and nothing that is asked of them tells them
apart: what they build at whatever time, how they compare with what they were begun over and with
the version, and how they are described as changes. -/
structure Alike (s : Snapshot) (d d' : Draft) : Prop where
  materialise : d.materialise = d'.materialise
  build : ∀ stamp stamp',
    Option.Rel (fun m m' => m.same m' = true) (d.build stamp) (d'.build stamp')
  diff : d.diff = d'.diff
  diffAgainst : ∀ intent, ∃ c, d.diffAgainst intent s = .ok c ∧ d'.diffAgainst intent s = .ok c
  toChange : ∀ intent, d.toChange intent = d'.toChange intent

theorem Alike.of_materialise {s : Snapshot} (hd : d.Coherent models) (hd' : d'.Coherent models)
    (h : d.materialise = d'.materialise) (hdplain : d.Plain)
    (hreference : ∀ r ∈ d.reference, r.isPlain = true) (hs : s.Conforms models)
    (hsplain : s.isPlain = true) (hsame : s.identity = d.identity) : Alike s d d' where
  materialise := h
  build := build_congr hd hd' h hdplain
  diff := diff_congr hd hd' h hreference
  diffAgainst intent := by
    have hbase := Snapshot.isBase_fields hs hsplain (congrArg Identity.layout hsame)
    refine ⟨_, diffAgainst_eq d intent (congrArg Identity.key hsame), ?_⟩
    rw [diffFrom_congr hd hd' h intent hbase]
    exact diffAgainst_eq d' intent (congrArg Identity.key (hsame.trans (opened.identity_congr h)))
  toChange := toChange_congr hd hd' h

/-- Opening everything before a run of edits makes no difference: each edit tells the same, and
afterwards the drafts are alike. -/
theorem alike_edited_materialise {r s : Snapshot} (hr : r.Conforms models)
    (hrplain : r.isPlain = true) (hs : s.Conforms models) (hsplain : s.isPlain = true)
    (hsame : s.identity = r.identity) {edits : List Edit}
    (hedits : ∀ e ∈ edits, e.Fits models r.layout ∧ e.Plain) :
    (r.edit.results edits).map EditResult.materialise =
        (r.edit.materialise.results edits).map EditResult.materialise ∧
      Alike s (r.edit.edited edits) (r.edit.materialise.edited edits) := by
  obtain ⟨hedited, hresults⟩ := edited_congr (materialise_materialise r.edit).symm edits
  obtain ⟨hidentity, hreference⟩ := frame_edited edits r.edit
  have hfits : ∀ e ∈ edits, e.Fits models r.layout := fun e he => (hedits e he).1
  have hlazy : (r.edit.edited edits).Coherent models := coherent_edited (coherent_edit hr) hfits
  have heager : (r.edit.materialise.edited edits).Coherent models := by
    apply coherent_edited (coherent_materialise (coherent_edit hr))
    rw [materialise_eq]
    exact hfits
  have hplain : (r.edit.edited edits).Plain :=
    plain_edited (plain_edit hrplain) fun e he => (hedits e he).2
  have hbegun : ∀ t ∈ (r.edit.edited edits).reference, t.isPlain = true := by
    rw [hreference]
    rintro _ ⟨⟩
    exact hrplain
  exact ⟨hresults, Alike.of_materialise hlazy heager hedited hplain hbegun hs hsplain
    (hsame.trans hidentity.symm)⟩

/-- A node loses the node below it, and only then is everything touched. -/
theorem alike_edited_materialise_of_pruned :
    ((Samples.family "leaf").edit.results
          [.field "children" (.remove (.int 7)), .materialise]).map EditResult.materialise =
        ((Samples.family "leaf").edit.materialise.results
          [.field "children" (.remove (.int 7)), .materialise]).map EditResult.materialise ∧
      Alike (Samples.family "twig")
        ((Samples.family "leaf").edit.edited
          [.field "children" (.remove (.int 7)), .materialise])
        ((Samples.family "leaf").edit.materialise.edited
          [.field "children" (.remove (.int 7)), .materialise]) := by
  have hedits : ∀ e ∈ [Edit.field "children" (.remove (.int 7)), .materialise],
      e.Fits Samples.nodes (Samples.family "leaf").layout ∧ e.Plain := by
    intro e he
    rcases List.mem_pair.1 he with rfl | rfl
    · exact ⟨.field fun _ _ _ _ => .remove _, trivial⟩
    · exact ⟨.materialise, trivial⟩
  exact alike_edited_materialise (Samples.conforms_family "leaf") (Samples.isPlain_family "leaf")
    (Samples.conforms_family "twig") (Samples.isPlain_family "twig") rfl hedits

end Draft

end VersionedRecords
