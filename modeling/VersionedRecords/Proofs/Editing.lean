import VersionedRecords.Proofs.Application
import VersionedRecords.Record.Edit

/-!
Drafts that can be come by.

A draft is begun over a conforming snapshot or from nothing, and then edited, any number of times
and at any depth.  Whatever is handed in with an edit has the form that its field asks for; drafts
that are handed in have been come by in the same way.  All these drafts are coherent.
-/

namespace VersionedRecords

mutual

/-- The drafts that editing leads to. -/
inductive Draft.Reachable (models : String → Layout) : Draft → Prop
  | edit {s : Snapshot} (hs : s.Conforms models) : Draft.Reachable models s.edit
  | new (layout : Layout) (key : Key) : Draft.Reachable models (.new layout key)
  | run {d : Draft} {e : Edit} (hd : Draft.Reachable models d)
      (he : Edit.Fits models d.layout e) : Draft.Reachable models (e.run d).1

/-- The edits that can be asked of drafts of a layout. -/
inductive Edit.Fits (models : String → Layout) : Layout → Edit → Prop
  | reset {layout : Layout} : Edit.Fits models layout .reset
  | materialise {layout : Layout} : Edit.Fits models layout .materialise
  | setLastIntent {layout : Layout} (i : Option Intent) :
      Edit.Fits models layout (.setLastIntent i)
  | apply {c : Change} (hc : c.Conforms models) : Edit.Fits models c.layout (.apply c)
  | look {layout : Layout} : Edit.Fits models layout .look
  | field {layout : Layout} {name : String} {e : FieldEdit}
      (he : ∀ i kind, layout.indexOf? name = some i → layout.kinds[i]? = some kind →
        FieldEdit.Fits models kind e) : Edit.Fits models layout (.field name e)

/-- The edits that can be asked of fields of a kind. -/
inductive FieldEdit.Fits (models : String → Layout) : FieldKind → FieldEdit → Prop
  | touch {kind : FieldKind} : FieldEdit.Fits models kind .touch
  | setScalar {t : DatumType} {v : Datum} (hv : v.Fits t) :
      FieldEdit.Fits models (.scalar t) (.set (.scalar v))
  | setAttached {t : DatumType} {v : Option Datum} (hv : ∀ x ∈ v, x.Fits t) :
      FieldEdit.Fits models (.attached t) (.set (.attached v))
  | setNested {m : String} {d : Option Draft} (hlayout : ∀ e ∈ d, e.layout = models m)
      (hd : ∀ e ∈ d, Draft.Reachable models e) :
      FieldEdit.Fits models (.nested m) (.set (.nested d))
  | setKeySet {k : KeyType} {ms : List Key} (hms : KeySet.Ascending ms) :
      FieldEdit.Fits models (.keySet k) (.set (.keySet ms))
  | setValueMap {k : KeyType} {t : DatumType} {es : Keyed Datum} (hes : Keyed.Ascending es)
      (hvalues : ∀ e ∈ es, e.2.Fits t) :
      FieldEdit.Fits models (.valueMap k t) (.set (.valueMap es))
  | setModelMap {k : KeyType} {m : String} {es : Keyed Draft} (hes : Keyed.Ascending es)
      (hlayout : ∀ e ∈ es, e.2.layout = models m) (hd : ∀ e ∈ es, Draft.Reachable models e.2) :
      FieldEdit.Fits models (.modelMap k m) (.set (.modelMap es))
  | insert {kind : FieldKind} (key : Key) : FieldEdit.Fits models kind (.insert key)
  | remove {kind : FieldKind} (key : Key) : FieldEdit.Fits models kind (.remove key)
  | clear {kind : FieldKind} : FieldEdit.Fits models kind .clear
  | putValue {k : KeyType} {t : DatumType} (key : Key) {v : Datum} (hv : v.Fits t) :
      FieldEdit.Fits models (.valueMap k t) (.putValue key v)
  | putRecord {k : KeyType} {m : String} (key : Key) {d : Draft} (hlayout : d.layout = models m)
      (hd : Draft.Reachable models d) : FieldEdit.Fits models (.modelMap k m) (.putRecord key d)
  | nested {m : String} {e : Edit} (he : Edit.Fits models (models m) e) :
      FieldEdit.Fits models (.nested m) (.nested e)
  | entry {k : KeyType} {m : String} (key : Key) {e : Edit} (he : Edit.Fits models (models m) e) :
      FieldEdit.Fits models (.modelMap k m) (.entry key e)

end

variable {models : String → Layout}

/-! ### Touching everything -/

theorem Draft.openFields_eq_map (fs : List (Value Snapshot)) :
    Draft.openFields fs = fs.map fun v => .touched (Draft.openValue v) := by
  induction fs with
  | nil => simp [Draft.openFields]
  | cons v fs ih => simp [Draft.openFields, ih]

theorem Draft.openEntries_eq_map (es : List (Key × Snapshot)) :
    Draft.openEntries es = es.map fun e => (e.1, e.2.editThroughout) := by
  induction es with
  | nil => simp [Draft.openEntries]
  | cons e es ih => simp [Draft.openEntries, ih]

theorem Snapshot.editThroughout_eq (s : Snapshot) :
    s.editThroughout =
      ⟨s.layout, s.key, some s, none, s.fields.map fun v => .touched (Draft.openValue v)⟩ := by
  obtain ⟨layout, key, origin, fields⟩ := s
  rw [Snapshot.editThroughout, Draft.openFields_eq_map]

namespace Draft

theorem workingCoheres_openValue {kind : FieldKind} {v : Value Snapshot}
    (hv : Snapshot.ValueConforms models kind v)
    (ih : ∀ s ∈ v.records, s.Conforms models → s.editThroughout.Coherent models) :
    WorkingCoheres models kind (openValue v) := by
  cases kind with
  | scalar t =>
      obtain ⟨x, rfl, hx⟩ := Snapshot.valueConforms_scalar.1 hv
      exact hx
  | attached t =>
      obtain ⟨x, rfl, hx⟩ := Snapshot.valueConforms_attached.1 hv
      exact hx
  | nested m =>
      obtain ⟨s, rfl, hs⟩ := Snapshot.valueConforms_nested.1 hv
      cases s with
      | none => trivial
      | some s =>
          obtain ⟨hlayout, hconforms⟩ := hs s rfl
          refine ⟨?_, ih s (by simp [Value.records]) hconforms⟩
          rw [Snapshot.editThroughout_eq]
          exact hlayout
  | keySet k =>
      obtain ⟨o, ms, rfl, hms⟩ := Snapshot.valueConforms_keySet.1 hv
      exact hms
  | valueMap k t =>
      obtain ⟨o, es, rfl, hes⟩ := Snapshot.valueConforms_valueMap.1 hv
      exact hes
  | modelMap k m =>
      obtain ⟨o, es, rfl, hes, hentries⟩ := Snapshot.valueConforms_modelMap.1 hv
      rw [openValue, openEntries_eq_map]
      refine workingCoheres_modelMap.2 ⟨_, rfl, List.pairwise_map.2 hes, ?_⟩
      intro _ hmem
      obtain ⟨e, he, rfl⟩ := List.mem_map.1 hmem
      obtain ⟨hlayout, hconforms⟩ := hentries e he
      refine ⟨?_, ih e.2 (List.mem_map_of_mem he) hconforms⟩
      rw [Snapshot.editThroughout_eq]
      exact hlayout

theorem coherent_editThroughout {s : Snapshot} (hs : s.Conforms models) :
    s.editThroughout.Coherent models := by
  induction s using Snapshot.induction with
  | step s ih =>
      have hfields := Snapshot.conforms_iff.1 hs
      rw [Snapshot.editThroughout_eq]
      refine coherent_iff.2 ⟨⟨rfl, hs, ?_⟩, ?_⟩
      · exact List.forall₂_map_left_iff.2 (List.forall₂_same.2 fun _ _ => .inl rfl)
      · refine List.forall₂_map_right_iff.2 (List.forall₂_iff_zip.2 ⟨hfields.length_eq, ?_⟩)
        intro kind v hmem
        exact workingCoheres_openValue ((List.forall₂_iff_zip.1 hfields).2 hmem)
          (ih v (List.of_mem_zip hmem).2)

theorem materialiseSlots_eq_map (slots : List (Slot Snapshot Draft)) :
    materialiseSlots slots = slots.map Slot.materialise := by
  induction slots with
  | nil => simp [materialiseSlots]
  | cons s slots ih => cases s <;> simp [materialiseSlots, Slot.materialise, ih]

theorem materialiseEntries_eq_map (es : List (Key × Draft)) :
    materialiseEntries es = es.map fun e => (e.1, e.2.materialise) := by
  induction es with
  | nil => simp [materialiseEntries]
  | cons e es ih => simp [materialiseEntries, ih]

theorem materialise_eq (d : Draft) :
    d.materialise = { d with slots := d.slots.map Slot.materialise } := by
  obtain ⟨layout, key, reference, lastIntent, slots⟩ := d
  rw [materialise, materialiseSlots_eq_map]

theorem workingCoheres_materialiseWorking {kind : FieldKind} {w : Working Draft}
    (hw : WorkingCoheres models kind w)
    (ih : ∀ d ∈ w.drafts, d.Coherent models → d.materialise.Coherent models) :
    WorkingCoheres models kind (materialiseWorking w) := by
  cases w with
  | nested d =>
      obtain ⟨m, rfl⟩ := kind_of_nested hw
      cases d with
      | none => trivial
      | some d =>
          obtain ⟨hlayout, hd⟩ := hw
          refine ⟨?_, ih d (by simp [Working.drafts]) hd⟩
          rw [materialise_eq]
          exact hlayout
  | modelMap es =>
      obtain ⟨k, m, rfl⟩ := kind_of_modelMap hw
      obtain ⟨_, ⟨⟩, hes, hentries⟩ := workingCoheres_modelMap.1 hw
      rw [materialiseWorking, materialiseEntries_eq_map]
      refine workingCoheres_modelMap.2 ⟨_, rfl, List.pairwise_map.2 hes, ?_⟩
      intro _ hmem
      obtain ⟨e, he, rfl⟩ := List.mem_map.1 hmem
      obtain ⟨hlayout, hd⟩ := hentries e he
      refine ⟨?_, ih e.2 (List.mem_map_of_mem he) hd⟩
      rw [materialise_eq]
      exact hlayout
  | _ => simpa [materialiseWorking] using hw

theorem advances_materialise (d : Draft) :
    List.Forall₂ Slot.Advances d.slots d.materialise.slots := by
  rw [materialise_eq]
  refine List.forall₂_map_right_iff.2 (List.forall₂_same.2 ?_)
  intro s _
  cases s <;> exact .inl rfl

theorem coherent_materialise {d : Draft} (hd : d.Coherent models) :
    d.materialise.Coherent models := by
  induction d using Draft.induction with
  | step d ih =>
      obtain ⟨-, hslots⟩ := coherent_iff.1 hd
      have hadvances := d.advances_materialise
      rw [materialise_eq] at hadvances ⊢
      refine hd.advance hadvances ?_ d.lastIntent
      refine List.forall₂_map_right_iff.2 (List.forall₂_iff_zip.2 ⟨hslots.length_eq, ?_⟩)
      intro kind s hmem
      have hs : SlotCoheres models kind s := (List.forall₂_iff_zip.1 hslots).2 hmem
      cases s with
      | deferred v =>
          exact workingCoheres_openValue hs fun s _ hconforms => coherent_editThroughout hconforms
      | touched w => exact workingCoheres_materialiseWorking hs (ih w (List.of_mem_zip hmem).2)

/-- The edit of one field leaves the others as they are. -/
theorem Coherent.set {d : Draft} (hd : d.Coherent models) {i : Nat} {kind : FieldKind}
    (hkind : d.layout.kinds[i]? = some kind) {w : Working Draft}
    (hw : WorkingCoheres models kind w) :
    Coherent models { d with slots := d.slots.set i (.touched w) } := by
  have htouched : SlotCoheres models kind (.touched w) := hw
  exact hd.advance (d.advances_set i w)
    (forall₂_set_right (coherent_iff.1 hd).2 hkind htouched) d.lastIntent

end Draft

/-! ### Editing keeps drafts coherent -/

attribute [grind =] Edit.run FieldEdit.run

theorem Edit.run_apply (c : Change) (d : Draft) :
    (Edit.apply c).run d =
      if d.key = c.key then (c.applyTo d, .done) else (d, .refused ⟨.apply, d.key, c.key⟩) := by
  rw [Edit.run, Draft.apply_eq]
  by_cases hkey : d.key = c.key
  · simp only [if_pos hkey]
  · simp only [if_neg hkey]

/-- The edit of a field that is there edits its working copy, and any other does nothing. -/
theorem Edit.run_field_cases (name : String) (e : FieldEdit) (d : Draft) :
    ((∀ i, d.layout.indexOf? name = some i → d.slots[i]? = none) ∧
      (Edit.field name e).run d = (d, .absent)) ∨
    ∃ i s, d.layout.indexOf? name = some i ∧ d.slots[i]? = some s ∧
      (Edit.field name e).run d =
        ({ d with slots := d.slots.set i (.touched (e.run s.working).1) },
          (e.run s.working).2) := by
  rw [Edit.run]
  cases hindex : d.layout.indexOf? name with
  | none => exact .inl ⟨by simp, rfl⟩
  | some i =>
      cases hslot : d.slots[i]? with
      | none => exact .inl ⟨by simpa using hslot, by simp only [hslot]⟩
      | some s => exact .inr ⟨i, s, rfl, hslot, by simp only [hslot]⟩

/-- No edit changes what record a draft is about or what it was begun over. -/
theorem Edit.frame_run (e : Edit) (d : Draft) :
    (e.run d).1.identity = d.identity ∧ (e.run d).1.reference = d.reference := by
  cases e with
  | reset => rw [Edit.run]; exact ⟨rfl, rfl⟩
  | materialise =>
      rw [Edit.run, Draft.materialise_eq]
      exact ⟨rfl, rfl⟩
  | setLastIntent i => rw [Edit.run]; exact ⟨rfl, rfl⟩
  | apply c =>
      rw [Edit.run_apply]
      split
      · exact ⟨c.identity_applyTo d, c.reference_applyTo d⟩
      · exact ⟨rfl, rfl⟩
  | look => rw [Edit.run]; exact ⟨rfl, rfl⟩
  | field name e =>
      rcases Edit.run_field_cases name e d with ⟨-, hrun⟩ | ⟨i, s, -, -, hrun⟩
      · rw [hrun]
        exact ⟨rfl, rfl⟩
      · rw [hrun]
        exact ⟨rfl, rfl⟩

theorem Edit.layout_run (e : Edit) (d : Draft) : (e.run d).1.layout = d.layout :=
  congrArg Identity.layout (e.frame_run d).1

/-- The edit keeps every coherent draft of the layout coherent. -/
def Edit.Keeps (models : String → Layout) (layout : Layout) (e : Edit) : Prop :=
  ∀ d : Draft, d.Coherent models → d.layout = layout → (e.run d).1.Coherent models

/-- The edit keeps every coherent working copy of the kind coherent. -/
def FieldEdit.Keeps (models : String → Layout) (kind : FieldKind) (e : FieldEdit) : Prop :=
  ∀ w : Working Draft, Draft.WorkingCoheres models kind w →
    Draft.WorkingCoheres models kind (e.run w).1

theorem FieldEdit.keeps_insert (kind : FieldKind) (key : Key) :
    FieldEdit.Keeps models kind (.insert key) := by
  intro w hw
  cases w with
  | keySet ms =>
      obtain ⟨k, rfl⟩ := Draft.kind_of_keySet hw
      rw [FieldEdit.run]
      exact KeySet.ascending_insert hw key
  | _ => simpa [FieldEdit.run] using hw

theorem FieldEdit.keeps_remove (kind : FieldKind) (key : Key) :
    FieldEdit.Keeps models kind (.remove key) := by
  intro w hw
  cases w with
  | keySet ms =>
      obtain ⟨k, rfl⟩ := Draft.kind_of_keySet hw
      rw [FieldEdit.run]
      exact KeySet.ascending_erase hw key
  | valueMap es =>
      obtain ⟨k, t, rfl⟩ := Draft.kind_of_valueMap hw
      obtain ⟨hes, hvalues⟩ := hw
      rw [FieldEdit.run]
      exact ⟨Keyed.ascending_erase hes key,
        fun e he => hvalues e ((Keyed.erase_sublist key es).subset he)⟩
  | modelMap es =>
      obtain ⟨k, m, rfl⟩ := Draft.kind_of_modelMap hw
      obtain ⟨_, ⟨⟩, hes, hentries⟩ := Draft.workingCoheres_modelMap.1 hw
      rw [FieldEdit.run]
      refine ⟨Keyed.ascending_erase hes key, Draft.entriesCohere_iff.2 ?_⟩
      exact fun e he => hentries e ((Keyed.erase_sublist key es).subset he)
  | _ => simpa [FieldEdit.run] using hw

theorem FieldEdit.keeps_clear (kind : FieldKind) : FieldEdit.Keeps models kind .clear := by
  intro w hw
  cases w with
  | keySet ms =>
      obtain ⟨k, rfl⟩ := Draft.kind_of_keySet hw
      exact Draft.workingCoheres_zero (.keySet k)
  | valueMap es =>
      obtain ⟨k, t, rfl⟩ := Draft.kind_of_valueMap hw
      exact Draft.workingCoheres_zero (.valueMap k t)
  | modelMap es =>
      obtain ⟨k, m, rfl⟩ := Draft.kind_of_modelMap hw
      exact Draft.workingCoheres_zero (.modelMap k m)
  | _ => simpa [FieldEdit.run] using hw

theorem FieldEdit.keeps_putValue {k : KeyType} {t : DatumType} (key : Key) {v : Datum}
    (hv : v.Fits t) : FieldEdit.Keeps models (.valueMap k t) (.putValue key v) := by
  intro w hw
  obtain ⟨es, rfl, hes, hvalues⟩ := Draft.workingCoheres_valueMap.1 hw
  rw [FieldEdit.run]
  refine ⟨Keyed.ascending_insert hes key v, ?_⟩
  intro e he
  rcases Keyed.mem_insert he with rfl | he
  · exact hv
  · exact hvalues e he

theorem FieldEdit.keeps_putRecord {k : KeyType} {m : String} (key : Key) {d : Draft}
    (hlayout : d.layout = models m) (hd : d.Coherent models) :
    FieldEdit.Keeps models (.modelMap k m) (.putRecord key d) := by
  intro w hw
  obtain ⟨es, rfl, hes, hentries⟩ := Draft.workingCoheres_modelMap.1 hw
  rw [FieldEdit.run]
  refine ⟨Keyed.ascending_insert hes key d, Draft.entriesCohere_iff.2 ?_⟩
  intro e he
  rcases Keyed.mem_insert he with rfl | he
  · exact ⟨hlayout, hd⟩
  · exact hentries e he

theorem FieldEdit.keeps_nested {m : String} {e : Edit} (he : e.Keeps models (models m)) :
    FieldEdit.Keeps models (.nested m) (.nested e) := by
  intro w hw
  obtain ⟨d, rfl, hd⟩ := Draft.workingCoheres_nested.1 hw
  cases d with
  | none => simpa [FieldEdit.run] using hw
  | some d =>
      obtain ⟨hlayout, hcoherent⟩ := hd d rfl
      rw [FieldEdit.run]
      exact ⟨(e.layout_run d).trans hlayout, he d hcoherent hlayout⟩

theorem FieldEdit.keeps_entry {k : KeyType} {m : String} (key : Key) {e : Edit}
    (he : e.Keeps models (models m)) : FieldEdit.Keeps models (.modelMap k m) (.entry key e) := by
  intro w hw
  obtain ⟨es, rfl, hes, hentries⟩ := Draft.workingCoheres_modelMap.1 hw
  rw [FieldEdit.run]
  cases hfind : Keyed.find? key es with
  | none => exact hw
  | some d =>
      obtain ⟨hlayout, hcoherent⟩ := hentries (key, d) ((Keyed.mem_iff_find? hes key d).2 hfind)
      refine ⟨Keyed.ascending_insert hes key _, Draft.entriesCohere_iff.2 ?_⟩
      intro f hf
      rcases Keyed.mem_insert hf with rfl | hf
      · exact ⟨(e.layout_run d).trans hlayout, he d hcoherent hlayout⟩
      · exact hentries f hf

theorem Edit.keeps_apply {c : Change} (hc : c.Conforms models) :
    (Edit.apply c).Keeps models c.layout := by
  intro d hd hlayout
  rw [Edit.run_apply]
  split
  · exact Change.keepsCoherence_of_conforms hc d hd hlayout
  · exact hd

theorem Edit.keeps_field {layout : Layout} {name : String} {e : FieldEdit}
    (he : ∀ i kind, layout.indexOf? name = some i → layout.kinds[i]? = some kind →
      e.Keeps models kind) : (Edit.field name e).Keeps models layout := by
  rintro d hd rfl
  rcases Edit.run_field_cases name e d with ⟨-, hrun⟩ | ⟨i, s, hindex, hslot, hrun⟩
  · rw [hrun]
    exact hd
  · obtain ⟨kind, hkind, hs⟩ := exists_getElem?_left (Draft.coherent_iff.1 hd).2 hslot
    rw [hrun]
    exact hd.set hkind (he i kind hindex hkind _ (Draft.workingCoheres_working hs))

mutual

theorem Draft.Reachable.coherent {d : Draft} (h : d.Reachable models) : d.Coherent models :=
  match h with
  | .edit hs => Draft.coherent_edit hs
  | .new layout key => Draft.coherent_new layout key
  | .run hd he => Edit.Fits.keeps he _ hd.coherent rfl

theorem Edit.Fits.keeps {layout : Layout} {e : Edit} (h : e.Fits models layout) :
    e.Keeps models layout :=
  match h with
  | .reset => fun _ hd _ => by
      rw [Edit.run]
      exact Draft.coherent_reset hd
  | .materialise => fun d hd _ => by
      rw [Edit.run]
      exact Draft.coherent_materialise hd
  | .setLastIntent i => fun _ hd _ => by
      rw [Edit.run]
      exact Draft.coherent_setLastIntent hd i
  | .apply hc => Edit.keeps_apply hc
  | .look => fun _ hd _ => by
      rw [Edit.run]
      exact hd
  | .field he => Edit.keeps_field fun i kind hi hkind => FieldEdit.Fits.keeps (he i kind hi hkind)

theorem FieldEdit.Fits.keeps {kind : FieldKind} {e : FieldEdit} (h : e.Fits models kind) :
    e.Keeps models kind :=
  match h with
  | .touch => fun _ hw => by
      rw [FieldEdit.run]
      exact hw
  | .setScalar hv => fun _ _ => by
      rw [FieldEdit.run]
      exact hv
  | .setAttached hv => fun _ _ => by
      rw [FieldEdit.run]
      exact hv
  | .setNested hlayout hd => fun _ _ => by
      rw [FieldEdit.run]
      exact Draft.workingCoheres_nested.2 ⟨_, rfl, fun e he => ⟨hlayout e he, (hd e he).coherent⟩⟩
  | .setKeySet hms => fun _ _ => by
      rw [FieldEdit.run]
      exact hms
  | .setValueMap hes hvalues => fun _ _ => by
      rw [FieldEdit.run]
      exact ⟨hes, hvalues⟩
  | .setModelMap hes hlayout hd => fun _ _ => by
      rw [FieldEdit.run]
      exact ⟨hes, Draft.entriesCohere_iff.2 fun e he => ⟨hlayout e he, (hd e he).coherent⟩⟩
  | .insert key => FieldEdit.keeps_insert kind key
  | .remove key => FieldEdit.keeps_remove kind key
  | .clear => FieldEdit.keeps_clear kind
  | .putValue key hv => FieldEdit.keeps_putValue key hv
  | .putRecord key hlayout hd => FieldEdit.keeps_putRecord key hlayout hd.coherent
  | .nested he => FieldEdit.keeps_nested he.keeps
  | .entry key he => FieldEdit.keeps_entry key he.keeps

end

theorem Edit.fits_field {layout : Layout} {name : String} {i : Nat} {kind : FieldKind}
    {e : FieldEdit} (hindex : layout.indexOf? name = some i)
    (hkind : layout.kinds[i]? = some kind) (he : e.Fits models kind) :
    (Edit.field name e).Fits models layout := by
  refine .field fun j kind' hj hkind' => ?_
  obtain rfl : i = j := Option.some.inj (hindex.symm.trans hj)
  obtain rfl : kind = kind' := Option.some.inj (hkind.symm.trans hkind')
  exact he

namespace Draft

theorem frame_edited (edits : List Edit) (d : Draft) :
    (d.edited edits).identity = d.identity ∧ (d.edited edits).reference = d.reference := by
  induction edits generalizing d with
  | nil => exact ⟨rfl, rfl⟩
  | cons e edits ih =>
      obtain ⟨hidentity, hreference⟩ := ih (e.run d).1
      obtain ⟨hidentity', hreference'⟩ := e.frame_run d
      exact ⟨hidentity.trans hidentity', hreference.trans hreference'⟩

theorem layout_edited (edits : List Edit) (d : Draft) : (d.edited edits).layout = d.layout :=
  congrArg Identity.layout (d.frame_edited edits).1

/-- What every edit of a draft of a layout keeps, several edits keep. -/
theorem edited_induction {P : Draft → Prop} {layout : Layout}
    (hrun : ∀ d e, d.layout = layout → P d → Edit.Fits models layout e → P (e.run d).1)
    {d : Draft} (hlayout : d.layout = layout) (hd : P d) {edits : List Edit}
    (hedits : ∀ e ∈ edits, e.Fits models layout) : P (d.edited edits) := by
  induction edits generalizing d with
  | nil => exact hd
  | cons e edits ih =>
      rw [List.forall_mem_cons] at hedits
      exact ih ((e.layout_run d).trans hlayout) (hrun d e hlayout hd hedits.1) hedits.2

theorem coherent_edited {d : Draft} (hd : d.Coherent models) {edits : List Edit}
    (hedits : ∀ e ∈ edits, e.Fits models d.layout) : (d.edited edits).Coherent models :=
  edited_induction (fun d _ hlayout hd he => he.keeps d hd hlayout) rfl hd hedits

theorem reachable_edited {d : Draft} (hd : d.Reachable models) {edits : List Edit}
    (hedits : ∀ e ∈ edits, e.Fits models d.layout) : (d.edited edits).Reachable models :=
  edited_induction (fun _ _ hlayout hd he => hd.run (hlayout ▸ he)) rfl hd hedits

end Draft

end VersionedRecords
