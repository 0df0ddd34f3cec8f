import VersionedRecords.Proofs.Content
import VersionedRecords.Proofs.Pairing
import VersionedRecords.Samples

/-!
Conformity: the snapshots that exist of a kind of record.

A layout names the layouts of its sub-records, and `models` says which layout goes by a name.  A
snapshot conforms if every field holds what its kind asks for, collections ascend, and all
sub-records have the layout that the field names and conform in turn.  Nothing keeps a layout from
naming itself, so records may be nested to any depth.
-/

namespace VersionedRecords

/-- Whether a value has the form that a type asks for.  Ranges of numbers and the names of variants
do not matter for anything that is done with values. -/
def Datum.Fits : DatumType → Datum → Prop
  | .key _, .key _ => True
  | .float, .float _ => True
  | .bytes, .bytes _ => True
  | .enumeration _ _, .variant _ => True
  | .timestamp, .timestamp _ => True
  | _, _ => False

theorem DatumType.fits_zero (t : DatumType) : t.zero.Fits t := by
  cases t <;> trivial

theorem DatumType.isPlain_zero (t : DatumType) : t.zero.isPlain = true := by
  cases t <;> rfl

namespace Snapshot

mutual

/-- Every field has the form that the layout asks for, and so in all sub-records. -/
def Conforms (models : String → Layout) : Snapshot → Prop
  | ⟨layout, _, _, fields⟩ => FieldsConform models layout.kinds fields

def FieldsConform (models : String → Layout) : List FieldKind → List (Value Snapshot) → Prop
  | [], [] => True
  | kind :: kinds, v :: vs => ValueConforms models kind v ∧ FieldsConform models kinds vs
  | _, _ => False

def ValueConforms (models : String → Layout) : FieldKind → Value Snapshot → Prop
  | .scalar t, .scalar v => v.Fits t
  | .attached t, .attached v => ∀ x ∈ v, x.Fits t
  | .nested _, .nested none => True
  | .nested m, .nested (some s) => s.layout = models m ∧ Conforms models s
  | .keySet _, .keySet _ ms => KeySet.Ascending ms
  | .valueMap _ t, .valueMap _ es => Keyed.Ascending es ∧ ∀ e ∈ es, e.2.Fits t
  | .modelMap _ m, .modelMap _ es => Keyed.Ascending es ∧ EntriesConform models m es
  | _, _ => False

def EntriesConform (models : String → Layout) (m : String) : List (Key × Snapshot) → Prop
  | [] => True
  | (_, s) :: es => (s.layout = models m ∧ Conforms models s) ∧ EntriesConform models m es

end

variable {models : String → Layout}

attribute [grind =] Conforms ValueConforms

theorem fieldsConform_iff {kinds : List FieldKind} {fs : List (Value Snapshot)} :
    FieldsConform models kinds fs ↔ List.Forall₂ (ValueConforms models) kinds fs := by
  induction kinds generalizing fs with
  | nil => cases fs <;> simp [FieldsConform]
  | cons kind kinds ih => cases fs <;> simp [FieldsConform, ih]

theorem conforms_iff {s : Snapshot} :
    s.Conforms models ↔ List.Forall₂ (ValueConforms models) s.layout.kinds s.fields := by
  obtain ⟨layout, key, origin, fields⟩ := s
  rw [Conforms, fieldsConform_iff]

theorem entriesConform_iff {m : String} {es : List (Key × Snapshot)} :
    EntriesConform models m es ↔ ∀ e ∈ es, e.2.layout = models m ∧ e.2.Conforms models := by
  induction es with
  | nil => simp [EntriesConform]
  | cons e es ih => simp [EntriesConform, ih]

/-! ### What a conforming value looks like, kind by kind -/

theorem valueConforms_scalar {t : DatumType} {v : Value Snapshot} :
    ValueConforms models (.scalar t) v ↔ ∃ x : Datum, v = .scalar x ∧ x.Fits t := by
  cases v <;> simp [ValueConforms]

theorem valueConforms_attached {t : DatumType} {v : Value Snapshot} :
    ValueConforms models (.attached t) v ↔
      ∃ x : Option Datum, v = .attached x ∧ ∀ y ∈ x, y.Fits t := by
  cases v <;> simp [ValueConforms]

theorem valueConforms_nested {m : String} {v : Value Snapshot} :
    ValueConforms models (.nested m) v ↔
      ∃ s : Option Snapshot, v = .nested s ∧
        ∀ t ∈ s, t.layout = models m ∧ t.Conforms models := by
  cases v with
  | nested s => cases s <;> simp [ValueConforms]
  | _ => simp [ValueConforms]

theorem valueConforms_keySet {k : KeyType} {v : Value Snapshot} :
    ValueConforms models (.keySet k) v ↔
      ∃ (o : Origin) (ms : List Key), v = .keySet o ms ∧ KeySet.Ascending ms := by
  cases v <;> simp [ValueConforms]

theorem valueConforms_valueMap {k : KeyType} {t : DatumType} {v : Value Snapshot} :
    ValueConforms models (.valueMap k t) v ↔
      ∃ (o : Origin) (es : Keyed Datum), v = .valueMap o es ∧ Keyed.Ascending es ∧
        ∀ e ∈ es, e.2.Fits t := by
  cases v <;> simp [ValueConforms]

theorem valueConforms_modelMap {k : KeyType} {m : String} {v : Value Snapshot} :
    ValueConforms models (.modelMap k m) v ↔
      ∃ (o : Origin) (es : Keyed Snapshot), v = .modelMap o es ∧ Keyed.Ascending es ∧
        ∀ e ∈ es, e.2.layout = models m ∧ e.2.Conforms models := by
  cases v <;> simp [ValueConforms, entriesConform_iff]

/-! ### Zero values -/

theorem valueConforms_zero (kind : FieldKind) : ValueConforms models kind (.zero kind) := by
  cases kind with
  | scalar t => exact t.fits_zero
  | attached t => simp [ValueConforms, Value.zero]
  | nested m => trivial
  | keySet k => exact List.Pairwise.nil
  | valueMap k t => exact ⟨List.Pairwise.nil, by simp⟩
  | modelMap k m => exact ⟨List.Pairwise.nil, trivial⟩

theorem forall₂_conforms_zeros (layout : Layout) :
    List.Forall₂ (ValueConforms models) layout.kinds layout.zeros := by
  rw [Layout.zeros, List.forall₂_map_right_iff, List.forall₂_same]
  exact fun kind _ => valueConforms_zero kind

theorem plainValue_zero (kind : FieldKind) : plainValue (.zero kind) = true := by
  cases kind with
  | scalar t => exact t.isPlain_zero
  | _ => simp [plainValue, Value.zero, plainEntries]

theorem plainValue_of_mem_zeros {layout : Layout} {v : Value Snapshot} (hv : v ∈ layout.zeros) :
    plainValue v = true := by
  obtain ⟨kind, -, rfl⟩ := List.mem_map.1 hv
  exact plainValue_zero kind

theorem conforms_empty (layout : Layout) (key : Key) (origin : Origin) :
    (empty layout key origin).Conforms models :=
  conforms_iff.2 (forall₂_conforms_zeros layout)

theorem isPlain_empty (layout : Layout) (key : Key) (origin : Origin) :
    (empty layout key origin).isPlain = true :=
  isPlain_iff.2 fun _ hv => plainValue_of_mem_zeros hv

/-! ### What records can be compared with -/

/-- The values are plain and conform, so that records of the layout can be compared with them. -/
structure IsBase (models : String → Layout) (layout : Layout) (base : List (Value Snapshot)) :
    Prop where
  conforms : List.Forall₂ (ValueConforms models) layout.kinds base
  plain : ∀ v ∈ base, plainValue v = true

theorem isBase_zeros (layout : Layout) : IsBase models layout layout.zeros :=
  ⟨forall₂_conforms_zeros layout, fun _ hv => plainValue_of_mem_zeros hv⟩

theorem isBase_fields {r : Snapshot} (hr : r.Conforms models) (hplain : r.isPlain = true)
    {layout : Layout} (hlayout : r.layout = layout) : IsBase models layout r.fields := by
  subst hlayout
  exact ⟨conforms_iff.1 hr, isPlain_iff.1 hplain⟩

/-! ### Conformity is a matter of content -/

theorem ascending_bareEntries {es : Keyed Snapshot} :
    Keyed.Ascending (bareEntries es) ↔ Keyed.Ascending es := by
  rw [bareEntries_eq_map, Keyed.Ascending, List.pairwise_map, Keyed.Ascending]

theorem valueConforms_bareValue {kind : FieldKind} {v : Value Snapshot}
    (ih : ∀ s ∈ v.records, (s.bare.Conforms models ↔ s.Conforms models)) :
    ValueConforms models kind (bareValue v) ↔ ValueConforms models kind v := by
  cases v with
  | nested s =>
      cases s with
      | none => rfl
      | some s =>
          have hs := ih s (by simp [Value.records])
          cases kind <;> simp [bareValue, ValueConforms, hs]
  | modelMap o es =>
      have hes : ∀ e ∈ es, (e.2.bare.Conforms models ↔ e.2.Conforms models) :=
        fun e he => ih e.2 (List.mem_map_of_mem he)
      cases kind with
      | modelMap k m =>
          simp only [bareValue, ValueConforms, ascending_bareEntries, entriesConform_iff]
          simp only [bareEntries_eq_map, List.forall_mem_map, layout_bare]
          refine and_congr_right fun _ => forall₂_congr fun e he => ?_
          rw [hes e he]
      | _ => simp [bareValue, ValueConforms]
  | _ => cases kind <;> simp [bareValue, ValueConforms]

theorem conforms_bare {s : Snapshot} : s.bare.Conforms models ↔ s.Conforms models := by
  induction s using Snapshot.induction with
  | step s ih =>
      rw [conforms_iff, conforms_iff, layout_bare, fields_bare, List.forall₂_map_right_iff]
      have hfields : ∀ v ∈ s.fields, ∀ kind,
          ValueConforms models kind (bareValue v) ↔ ValueConforms models kind v :=
        fun v hv kind => valueConforms_bareValue (ih v hv)
      generalize s.fields = fs at hfields
      generalize s.layout.kinds = kinds
      induction kinds generalizing fs with
      | nil => cases fs <;> simp
      | cons kind kinds ihkinds =>
          cases fs with
          | nil => simp
          | cons v fs =>
              simp only [List.forall₂_cons, hfields v (by simp) kind,
                ihkinds fs fun w hw => hfields w (List.mem_cons_of_mem _ hw)]

end Snapshot

/-! ### Layouts without floating-point numbers -/

/-- The values of the type are the same only if they are equal. -/
def DatumType.isExact : DatumType → Bool
  | .float => false
  | _ => true

def FieldKind.isExact : FieldKind → Bool
  | .scalar t | .attached t | .valueMap _ t => t.isExact
  | _ => true

def Layout.isExact (l : Layout) : Bool := l.kinds.all FieldKind.isExact

theorem Datum.isPlain_of_fits {t : DatumType} (ht : t.isExact = true) {v : Datum}
    (hv : v.Fits t) : v.isPlain = true := by
  cases t <;> cases v <;> simp_all [DatumType.isExact, Datum.Fits, Datum.isPlain]

namespace Snapshot

theorem plainValue_of_exact {models : String → Layout} {kind : FieldKind}
    (hkind : kind.isExact = true) {v : Value Snapshot} (hv : ValueConforms models kind v)
    (ih : ∀ s ∈ v.records, s.Conforms models → (∃ m, s.layout = models m) → s.isPlain = true) :
    plainValue v = true := by
  cases kind with
  | scalar t =>
      obtain ⟨x, rfl, hx⟩ := valueConforms_scalar.1 hv
      exact Datum.isPlain_of_fits hkind hx
  | attached t =>
      obtain ⟨x, rfl, hx⟩ := valueConforms_attached.1 hv
      rw [plainValue, Option.all_eq_true]
      exact fun y hy => Datum.isPlain_of_fits hkind (hx y hy)
  | nested m =>
      obtain ⟨s, rfl, hs⟩ := valueConforms_nested.1 hv
      refine plainValue_nested.2 fun t ht => ?_
      obtain ⟨hlayout, hconforms⟩ := hs t ht
      exact ih t (by simpa [Value.records] using ht) hconforms ⟨m, hlayout⟩
  | keySet k =>
      obtain ⟨o, ms, rfl, -⟩ := valueConforms_keySet.1 hv
      rw [plainValue]
  | valueMap k t =>
      obtain ⟨o, es, rfl, -, hes⟩ := valueConforms_valueMap.1 hv
      rw [plainValue, List.all_eq_true]
      exact fun e he => Datum.isPlain_of_fits hkind (hes e he)
  | modelMap k m =>
      obtain ⟨o, es, rfl, -, hes⟩ := valueConforms_modelMap.1 hv
      rw [plainValue, plainEntries_iff]
      intro e he
      obtain ⟨hlayout, hconforms⟩ := hes e he
      exact ih e.2 (List.mem_map_of_mem he) hconforms ⟨m, hlayout⟩

/-- Without floating-point numbers all records are plain. -/
theorem isPlain_of_exact {models : String → Layout} (hmodels : ∀ m, (models m).isExact = true)
    {s : Snapshot} (hs : s.Conforms models) (hlayout : s.layout.isExact = true) :
    s.isPlain = true := by
  induction s using Snapshot.induction with
  | step s ih =>
      refine isPlain_iff.2 fun v hv => ?_
      obtain ⟨kind, hmem, hkind⟩ := exists_of_mem_right (conforms_iff.1 hs) hv
      refine plainValue_of_exact (List.all_eq_true.1 hlayout kind hmem) hkind ?_
      rintro t ht hconforms ⟨m, hm⟩
      exact ih v hv t ht hconforms (hm ▸ hmodels m)

end Snapshot

/-! ### Trees -/

namespace Samples

/-- Whatever a field names, it holds nodes. -/
def nodes : String → Layout := fun _ => node

/-- A node with a label and further nodes below it. -/
def tree (key : Int) (label : String) (children : Keyed Snapshot) : Snapshot :=
  ⟨node, .int key, .zero, [.scalar (.key (.text label)), .modelMap .zero children]⟩

theorem conforms_tree {key : Int} {label : String} {children : Keyed Snapshot}
    (hasc : Keyed.Ascending children)
    (hchildren : ∀ e ∈ children, e.2.layout = node ∧ e.2.Conforms nodes) :
    (tree key label children).Conforms nodes := by
  refine Snapshot.conforms_iff.2 (.cons ?_ (.cons ?_ .nil))
  · trivial
  · exact Snapshot.valueConforms_modelMap.2 ⟨_, _, rfl, hasc, hchildren⟩

theorem isPlain_tree {key : Int} {label : String} {children : Keyed Snapshot}
    (hchildren : ∀ e ∈ children, e.2.isPlain = true) :
    (tree key label children).isPlain = true := by
  rw [Snapshot.isPlain_iff]
  simp only [tree, List.mem_cons, List.not_mem_nil, or_false, forall_eq_or_imp, forall_eq]
  exact ⟨rfl, Snapshot.plainEntries_iff.2 hchildren⟩

/-- A node with one node below it. -/
def family (label : String) : Snapshot := tree 1 "root" [(.int 7, tree 2 label [])]

theorem conforms_family (label : String) : (family label).Conforms nodes := by
  refine conforms_tree (List.pairwise_singleton _ _) ?_
  intro e he
  obtain rfl := List.mem_singleton.1 he
  exact ⟨rfl, conforms_tree List.Pairwise.nil (by simp)⟩

theorem isPlain_family (label : String) : (family label).isPlain = true := by
  refine isPlain_tree ?_
  intro e he
  obtain rfl := List.mem_singleton.1 he
  exact isPlain_tree (by simp)

end Samples

end VersionedRecords
