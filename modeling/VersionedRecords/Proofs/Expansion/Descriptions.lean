import VersionedRecords.Proofs.Expansion.FunctionNames

/-!
The descriptions in generated code.

A description is written by one part of the code and checked by another at run time.  The checks
that a struct passes before it is expanded leave nothing that the later check could find, as long as
its fields have different names.  Every field is described by what is declared for it alone, so the
places of the fields only matter for their order in the description, which the fingerprint forgets.
-/

namespace VersionedRecords

open Source

/-! ### What the check of a description asks for -/

/-- What a description has to be: one key, which is a plain value, different names, and as many
types inside every field as its kind takes. -/
structure Description.Sound (d : Description) : Prop where
  key : d.keyFields.length = 1
  names : (d.fields.map FieldDescription.name).Nodup
  fields : ∀ f ∈ d.fields,
    (f.role = .key → f.shape = .scalar) ∧ f.typeArguments.length = f.shape.arity

namespace Description

theorem fieldFault?_eq_none_iff {seen : List String} {f : FieldDescription} :
    fieldFault? seen f = none ↔ f.name ∉ seen ∧
      (f.role = .key → f.shape = .scalar) ∧ f.typeArguments.length = f.shape.arity := by
  rw [fieldFault?]
  split
  · simp_all
  · split
    · simp_all
    · split <;> simp_all

theorem fieldsFault?_eq_none_iff {seen : List String} {fields : List FieldDescription} :
    fieldsFault? seen fields = none ↔ Schema.Fresh seen (fields.map FieldDescription.name) ∧
      ∀ f ∈ fields,
        (f.role = .key → f.shape = .scalar) ∧ f.typeArguments.length = f.shape.arity := by
  induction fields generalizing seen with
  | nil => simp [fieldsFault?, Schema.fresh_nil]
  | cons f fields ih =>
    rw [fieldsFault?, Option.or_eq_none_iff, fieldFault?_eq_none_iff, ih, List.map_cons,
      Schema.fresh_cons, List.forall_mem_cons]
    tauto

/-- The check finds nothing exactly in sound descriptions. -/
theorem fault?_eq_none_iff {d : Description} : d.fault? = none ↔ d.Sound := by
  rw [fault?]
  split
  · next hkey =>
    rw [fieldsFault?_eq_none_iff, Schema.fresh_from_nil]
    exact ⟨fun h => ⟨hkey, h.1, h.2⟩, fun h => ⟨h.names, h.fields⟩⟩
  · next hkey => exact iff_of_false (by simp) fun h => hkey h.key

end Description

namespace Blueprint

/-! ### What becomes of a declared field -/

/-- Whether a declared field is marked as the key. -/
def isMarked (f : StructField) : Bool := f.attributes.any marksKey

/-- The bare name that enters the fingerprint, for a kind of field and the types inside. -/
def bareNameOf (shape : FieldShape) (arguments : List String) : String :=
  match shape with
  | .scalar | .attached | .nested => Text.bareTypeName (arguments.headD "")
  | shape => shape.marker

/-- A declared field as it is described: with its name, and with the kind and the types inside that
its type is written with. -/
structure DescribedBy (f : StructField) (e : FieldDescription) : Prop where
  name : e.name = f.name
  role : e.role = .value
  written : ∃ last, f.type.last = some last ∧ last.name = e.shape.marker ∧
    e.typeArguments = last.types.map fun t => Token.compact (Tree.allTokens t)
  arity : e.typeArguments.length = e.shape.arity
  typeName : e.typeName = bareNameOf e.shape e.typeArguments

/-- The description of a key with a name and a type. -/
def keyDescription (name type : String) : FieldDescription :=
  ⟨name, .key, .scalar, Text.bareTypeName type, [type]⟩

/-- The key that comes of the marked fields, after one that was found before them. -/
inductive Chosen : Option KeyField → List StructField → Option KeyField → Prop
  | kept (found : Option KeyField) : Chosen found [] found
  | marked {f : StructField} {k : KeyField} (hkey : keyField false f = .ok k) :
    Chosen none [f] (some k)

section Fields

variable {f : StructField} {declared : List StructField} {key found : Option KeyField}
  {values : List ValueField}

theorem marker_eq_of_ofMarker? {name : String} {shape : FieldShape}
    (h : FieldShape.ofMarker? name = some shape) : shape.marker = name := by
  simpa using List.find?_some h

theorem bareName_eq (v : ValueField) :
    v.bareName = bareNameOf v.shape (v.arguments.map Token.compact) := by
  have hfirst :
      (v.arguments.map Token.compact).headD "" = Token.compact (v.arguments.headD []) := by
    cases v.arguments <;> rfl
  cases hshape : v.shape <;> simp only [ValueField.bareName, bareNameOf, hshape, hfirst]

theorem describedBy_of_valueField {v : ValueField} (h : valueField f = .ok v) :
    DescribedBy f v.describe := by
  rw [valueField] at h
  split at h
  · cases h
  · split at h
    · cases h
    · next shape arguments hmarker =>
      split at h
      · next harity =>
        cases h
        obtain ⟨last, hlast, hshape⟩ := Option.bind_eq_some_iff.1 hmarker
        obtain ⟨shape', hshape', hpure⟩ := Option.bind_eq_some_iff.1 hshape
        cases hpure
        refine ⟨rfl, rfl, ⟨last, hlast, (marker_eq_of_ofMarker? hshape').symm, ?_⟩, ?_,
          bareName_eq _⟩
        · exact List.map_map
        · exact (List.length_map _).trans harity
      · cases h

theorem map_name_of_describedBy {described : List FieldDescription}
    (h : List.Forall₂ DescribedBy declared described) :
    described.map FieldDescription.name = declared.map StructField.name := by
  induction h with
  | nil => rfl
  | cons hfirst _ ih => rw [List.map_cons, List.map_cons, hfirst.name, ih]

theorem describe_of_keyField {once : Bool} {k : KeyField} (h : keyField once f = .ok k) :
    k.describe = keyDescription f.name (Token.compact (Tree.allTokens f.type.trees)) := by
  rw [keyField] at h
  split at h
  · cases h
  · split at h
    · cases h
    · split at h
      · cases h
      · cases h
        rfl

/-- A marked field becomes the key, if there is none before it. -/
theorem sortFields_cons_of_marked (hmarked : isMarked f = true) :
    sortFields found (f :: declared) = .ok (key, values) ↔ found = none ∧
      ∃ k, keyField false f = .ok k ∧ sortFields (some k) declared = .ok (key, values) := by
  rw [isMarked] at hmarked
  rw [sortFields, if_pos hmarked, Schema.bind_eq_ok_iff]
  constructor
  · rintro ⟨k, hk, hrest⟩
    obtain ⟨hfound, -⟩ := keyField_eq_ok hk
    obtain rfl : found = none := by simpa using hfound
    exact ⟨rfl, k, hk, hrest⟩
  · rintro ⟨rfl, hrest⟩
    exact hrest

/-- Any other field is put in front of those behind it. -/
theorem sortFields_cons_of_unmarked (hmarked : isMarked f = false) :
    sortFields found (f :: declared) = .ok (key, values) ↔ ∃ v others, valueField f = .ok v ∧
      sortFields found declared = .ok (key, others) ∧ values = v :: others := by
  rw [isMarked] at hmarked
  rw [sortFields, if_neg (Bool.eq_false_iff.1 hmarked)]
  constructor
  · intro h
    obtain ⟨v, hv, hbehind⟩ := Schema.bind_eq_ok_iff.1 h
    obtain ⟨⟨key', others⟩, hrest, hpure⟩ := Schema.bind_eq_ok_iff.1 hbehind
    cases hpure
    exact ⟨v, others, hv, hrest, rfl⟩
  · rintro ⟨v, others, hv, hrest, rfl⟩
    exact Schema.bind_eq_ok_iff.2 ⟨v, hv, Schema.bind_eq_ok_iff.2 ⟨_, hrest, rfl⟩⟩

/-- Sorting looks at every field by itself: those that are not marked come out one by one, and of
those that are marked there may only be one. -/
theorem sortFields_eq_ok_iff : sortFields found declared = .ok (key, values) ↔
    List.Forall₂ (fun f v => valueField f = .ok v) (declared.filter fun f => !isMarked f) values ∧
      Chosen found (declared.filter isMarked) key := by
  induction declared generalizing found key values with
  | nil =>
    constructor
    · intro h
      cases h
      exact ⟨.nil, .kept _⟩
    · rintro ⟨hvalues, hchosen⟩
      cases hvalues
      cases hchosen
      rfl
  | cons f rest ih =>
    cases hmarked : isMarked f with
    | true =>
      rw [sortFields_cons_of_marked hmarked, List.filter_cons_of_neg (by simp [hmarked]),
        List.filter_cons_of_pos hmarked]
      simp only [ih]
      generalize rest.filter isMarked = others
      constructor
      · rintro ⟨rfl, k, hk, hvalues, hchosen⟩
        cases hchosen
        exact ⟨hvalues, .marked hk⟩
      · rintro ⟨hvalues, hchosen⟩
        cases hchosen with
        | marked hk => exact ⟨rfl, _, hk, hvalues, .kept _⟩
    | false =>
      rw [sortFields_cons_of_unmarked hmarked, List.filter_cons_of_pos (by simp [hmarked]),
        List.filter_cons_of_neg (by simp [hmarked])]
      constructor
      · rintro ⟨v, others, hv, hrest, rfl⟩
        obtain ⟨hvalues, hchosen⟩ := ih.1 hrest
        exact ⟨.cons hv hvalues, hchosen⟩
      · rintro ⟨hvalues, hchosen⟩
        cases hvalues with
        | cons hv hvalues => exact ⟨_, _, hv, ih.2 ⟨hvalues, hchosen⟩, rfl⟩

end Fields

/-! ### What becomes of a declaration -/

section Declarations

variable {items : List AttributeItem} {d : StructDeclaration} {declared : List StructField}
  {b : Blueprint}

/-- A struct with named fields is accepted exactly if its arguments and its fields are, and if it
has no parameters. -/
theorem ofDeclaration_eq_ok_iff (hbody : d.body = .named declared) :
    ofDeclaration items d = .ok b ↔ ∃ fingerprint key values,
      arguments none items = .ok fingerprint ∧ d.isGeneric = false ∧
      sortFields none declared = .ok (some key, values) ∧
      b = ⟨d.attributes, Tree.allTokens d.visibility, d.name, key, values, fingerprint⟩ := by
  rw [ofDeclaration, hbody, Schema.bind_eq_ok_iff]
  cases hgeneric : d.isGeneric with
  | true =>
    refine iff_of_false ?_ ?_
    · rintro ⟨fingerprint, -, h⟩
      cases h
    · rintro ⟨fingerprint, key, values, -, h, -⟩
      cases h
  | false =>
    constructor
    · rintro ⟨fingerprint, harguments, h⟩
      obtain ⟨⟨key, values⟩, hsort, h⟩ := Schema.bind_eq_ok_iff.1 h
      cases key with
      | none => cases h
      | some key =>
        cases h
        exact ⟨fingerprint, key, values, harguments, rfl, hsort, rfl⟩
    · rintro ⟨fingerprint, key, values, harguments, -, hsort, rfl⟩
      exact ⟨fingerprint, harguments, Schema.bind_eq_ok_iff.2 ⟨_, hsort, rfl⟩⟩

/-- The fields of an accepted struct, sorted: the key is the one that is marked. -/
theorem sorted_of_ofDeclaration (hbody : d.body = .named declared)
    (h : ofDeclaration items d = .ok b) :
    (∃ k, declared.filter isMarked = [k] ∧ keyField false k = .ok b.key) ∧
      List.Forall₂ (fun f v => valueField f = .ok v) (declared.filter fun f => !isMarked f)
        b.fields := by
  obtain ⟨fingerprint, key, values, -, -, hsort, rfl⟩ := (ofDeclaration_eq_ok_iff hbody).1 h
  obtain ⟨hvalues, hchosen⟩ := sortFields_eq_ok_iff.1 hsort
  refine ⟨?_, hvalues⟩
  generalize declared.filter isMarked = marked at hchosen
  cases hchosen with
  | marked hkey => exact ⟨_, rfl, hkey⟩

/-- A struct with its fields in another order is accepted as well, and has the same key and the same
other fields. -/
theorem exists_ofDeclaration_of_perm (hbody : d.body = .named declared)
    (h : ofDeclaration items d = .ok b) {declared' : List StructField}
    (hperm : declared'.Perm declared) :
    ∃ b', ofDeclaration items { d with body := .named declared' } = .ok b' ∧
      b'.key = b.key ∧ b'.fields.Perm b.fields := by
  obtain ⟨fingerprint, key, values, harguments, hgeneric, hsort, rfl⟩ :=
    (ofDeclaration_eq_ok_iff hbody).1 h
  obtain ⟨hvalues, hchosen⟩ := sortFields_eq_ok_iff.1 hsort
  obtain ⟨values', hvalues', hbehind⟩ := List.perm_comp_forall₂ (hperm.filter _) hvalues
  have hmarked : declared'.filter isMarked = declared.filter isMarked := by
    have hsame := hperm.filter isMarked
    generalize declared.filter isMarked = marked at hchosen hsame
    cases hchosen with
    | marked => exact List.perm_singleton.1 hsame
  have hsort' := sortFields_eq_ok_iff.2 ⟨hvalues', hmarked ▸ hchosen⟩
  exact ⟨_, (ofDeclaration_eq_ok_iff rfl).2
    ⟨fingerprint, key, values', harguments, hgeneric, hsort', rfl⟩, rfl, hbehind⟩

/-! ### Descriptions -/

theorem shape_describe_perm {b' : Blueprint} (hkey : b'.key = b.key)
    (hfields : b'.fields.Perm b.fields) : b'.describe.shape.Perm b.describe.shape := by
  rw [Description.shape, Description.shape, describe, describe, hkey]
  exact ((hfields.map _).cons _).map _

theorem keyFields_describe (b : Blueprint) : b.describe.keyFields = [b.key.describe] := by
  have hnone : (b.fields.map ValueField.describe).filter (fun f => f.role == .key) = [] := by
    simp [ValueField.describe]
  rw [Description.keyFields, describe]
  exact congrArg (b.key.describe :: ·) hnone

theorem valueFields_describe (b : Blueprint) :
    b.describe.valueFields = b.fields.map ValueField.describe := by
  have hall : (b.fields.map ValueField.describe).filter (fun f => f.role == .value) =
      b.fields.map ValueField.describe := by
    simp [ValueField.describe]
  rw [Description.valueFields, describe]
  exact hall

/-- A blueprint that has passed its checks describes itself soundly if its fields have different
names. -/
theorem Checked.sound_describe (h : b.Checked) (hnames : b.names.Nodup) : b.describe.Sound where
  key := by rw [keyFields_describe, List.length_singleton]
  names := by
    have hdescribed : b.describe.fields.map FieldDescription.name = b.names := by
      simp [describe, names, KeyField.describe, ValueField.describe]
    rwa [hdescribed]
  fields := by
    rw [describe]
    refine List.forall_mem_cons.2 ⟨⟨fun _ => rfl, rfl⟩, fun f hf => ?_⟩
    obtain ⟨v, hv, rfl⟩ := List.mem_map.1 hf
    have hvalue : v.describe.role ≠ .key := by simp [ValueField.describe]
    exact ⟨fun hkey => absurd hkey hvalue, (List.length_map _).trans (h.fields v hv).2⟩

/-- The description of an accepted struct stands in its code and passes the check, if the names of
the fields are different.  Its key is the field that is marked, and its other fields are the others,
in their order and as they are declared.  In whatever order the fields of the struct are written, it
is accepted and has the same fingerprint. -/
theorem describe_sound (hbody : d.body = .named declared) (hnames : d.fieldNames.Nodup)
    (h : ofDeclaration items d = .ok b) :
    b.describe.tokens <:+: b.tokens ∧ b.describe.fault? = none ∧
    (∃ k, declared.filter isMarked = [k] ∧ b.describe.keyField? =
      some (keyDescription k.name (Token.compact (Tree.allTokens k.type.trees)))) ∧
    List.Forall₂ DescribedBy (declared.filter fun f => !isMarked f) b.describe.valueFields ∧
    ∀ declared', declared'.Perm declared →
      ∃ b', ofDeclaration items { d with body := .named declared' } = .ok b' ∧
        b'.describe.fingerprint = b.describe.fingerprint := by
  obtain ⟨hperm, hchecked⟩ := ofDeclaration_eq_ok h
  obtain ⟨⟨k, hmarked, hkey⟩, hvalues⟩ := sorted_of_ofDeclaration hbody h
  have hplaced : b.describe.tokens <:+: b.tokens := describe_infix b
  refine ⟨hplaced, ?_, ⟨k, hmarked, ?_⟩, ?_, fun declared' hperm' => ?_⟩
  · exact Description.fault?_eq_none_iff.2 (hchecked.sound_describe (hperm.nodup_iff.1 hnames))
  · rw [← describe_of_keyField hkey]
    rfl
  · rw [valueFields_describe, List.forall₂_map_right_iff]
    exact hvalues.imp fun _ _ => describedBy_of_valueField
  · obtain ⟨b', hb', hsame, hfields⟩ := exists_ofDeclaration_of_perm hbody h hperm'
    exact ⟨b', hb', Fingerprint.ofShape_congr (shape_describe_perm hsame hfields)⟩

/-- The fields of a struct with its key in the middle. -/
def memoFields : List StructField :=
  [(⟨"notes", .value, .value .valueMap ["String", "u64"]⟩ : ResolvedField).declared,
    (⟨"id", .key, .identity "u64"⟩ : ResolvedField).declared,
    (⟨"badge", .value, .value .nested ["Badge"]⟩ : ResolvedField).declared]

def memo : StructDeclaration := ⟨[], [], "Memo", false, .named memoFields⟩

/-- The description of a memo begins with the key, and the fingerprint stays if it really does. -/
theorem describe_sound_of_memo : memo.fieldNames.Nodup ∧ ∃ b, ofDeclaration [] memo = .ok b ∧
    b.describe.fault? = none ∧ b.describe.keyField? = some (keyDescription "id" "u64") ∧
    b.describe.valueFields.map FieldDescription.name = ["notes", "badge"] ∧
    ∃ b', ofDeclaration [] { memo with body := .named memoFields.reverse } = .ok b' ∧
      b'.describe.fingerprint = b.describe.fingerprint := by
  have hnames : memo.fieldNames.Nodup := by decide
  obtain ⟨b, hb⟩ : ∃ b, ofDeclaration [] memo = .ok b := ⟨_, rfl⟩
  obtain ⟨-, hfault, ⟨k, hk, hkey⟩, hvalues, hreordered⟩ := describe_sound rfl hnames hb
  have hmarked : memoFields.filter isMarked =
      [(⟨"id", .key, .identity "u64"⟩ : ResolvedField).declared] := rfl
  obtain rfl : (⟨"id", .key, .identity "u64"⟩ : ResolvedField).declared = k := by
    simpa only [hmarked, List.cons.injEq, and_true] using hk
  refine ⟨hnames, b, hb, hfault, hkey.trans ?_, ?_,
    hreordered memoFields.reverse (List.reverse_perm memoFields)⟩
  · decide
  · have hothers : (memoFields.filter fun f => !isMarked f).map StructField.name =
        ["notes", "badge"] := rfl
    rw [← hothers]
    exact map_name_of_describedBy hvalues

end Declarations

end Blueprint

end VersionedRecords
