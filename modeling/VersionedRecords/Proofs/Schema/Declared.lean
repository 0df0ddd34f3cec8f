import VersionedRecords.Expansion.Program
import VersionedRecords.Proofs.Fingerprint
import VersionedRecords.Proofs.Schema.StructText
import VersionedRecords.Proofs.Source.Reading

/-!
What a generated struct is read as.

A resolved field becomes a field of a declaration, and the declaration is all that the text of a
struct says: unless a keyword stands in the place of a name, reading the text gives it back.
-/

namespace VersionedRecords

open Source Source.Rule

/-! ### Declarations -/

/-- The types that a resolved type is made of. -/
def ResolvedType.names : ResolvedType → List String
  | identity name => [name]
  | value _ arguments => arguments

/-- A type as a declaration has it. -/
def ResolvedType.declared (t : ResolvedType) : WrittenType where
  trees := t.trees
  last := match t with
    | identity name => some ⟨name, none⟩
    | value shape arguments => some ⟨shape.marker, some (arguments.map fun a => .type [.word a])⟩

namespace ResolvedField

/-- The attributes of a field: a key is marked. -/
def attributes (f : ResolvedField) : List Attribute :=
  if f.role = .key then [⟨⟨false, ["key"], .none⟩, Rule.attributeTrees [.word "key"]⟩] else []

/-- A field as a declaration has it. -/
def declared (f : ResolvedField) : StructField := ⟨f.attributes, f.name, f.type.declared⟩

end ResolvedField

namespace Schema

/-- A line of documentation as a declaration has it. -/
def docAttribute (comment : String) : Attribute :=
  ⟨⟨false, ["doc"], .expression⟩, docTrees comment⟩

/-- The declaration of a generated struct. -/
def declaration (m : ModelDeclaration) (fields : List ResolvedField) : StructDeclaration where
  attributes := (modelDocs m fields).map docAttribute
  visibility := [.word "pub"]
  name := m.name
  isGeneric := false
  body := .named (fields.map ResolvedField.declared)

end Schema

/-! ### Reading the parts -/

namespace ResolvedType

variable {t : ResolvedType}

theorem isIdentifier_marker (shape : FieldShape) : isIdentifier shape.marker = true := by
  cases shape <;> decide

theorem readsType_declared (h : ∀ n ∈ t.names, NamesType n) (k : Nat) :
    ReadsType (Grammar.levels (k + 2)) t.declared := by
  cases t with
  | identity name => exact readsType_name (readsNames_levels (k + 1)) (h name List.mem_cons_self)
  | value shape arguments => exact readsType_applied (isIdentifier_marker shape) h true

/-- A type does not look like a struct without a name. -/
theorem startsNameless_declared (h : ∀ n ∈ t.names, NamesType n) (rest : List Tree) :
    startsNameless (t.declared.trees ++ .mark ',' false :: rest) = false := by
  have hword {n : String} (hn : NamesType n) (ts : List Tree)
      (hts : Tree.startsGroup .brace ts = false) : startsNameless (.word n :: ts) = false := by
    have hstruct := hn.not_startsWord ["struct"] (by decide) ts
    have hnext : Tree.next (.word n :: ts) = ts := rfl
    rw [startsNameless, hstruct, hnext, hts, Bool.and_false, Bool.or_false]
  cases t with
  | identity name => exact hword (h name List.mem_cons_self) _ rfl
  | value shape arguments => exact hword (.inl (isIdentifier_marker shape)) _ rfl

end ResolvedType

namespace ResolvedField

variable {g : Grammar} {f : ResolvedField}

theorem flatMap_attributes (f : ResolvedField) :
    f.attributes.flatMap Attribute.trees = f.attributeTrees := by
  rw [attributes, attributeTrees]
  split <;> rfl

theorem readsAttributes (f : ResolvedField) : ReadsAttributes g f.attributes := by
  intro ts w hts
  rw [attributes]
  split
  · have hkey : ∀ c ∈ [([Tree.word "key"], AttributeItem.mk false ["key"] .none)],
        ReadsItem g c.1 c.2 := by
      simpa using readsItem_word rfl
    have hattributes := attributes_eq (w := w) hkey hts
    exact hattributes
  · have hnone : ∀ c ∈ ([] : List (List Tree × AttributeItem)), ReadsItem g c.1 c.2 := by simp
    have hattributes := attributes_eq (w := w) hnone hts
    exact hattributes

theorem readsParts_declared (h : ∀ n ∈ f.type.names, NamesType n) (k : Nat) :
    ReadsParts (Grammar.levels (k + 2)) f.declared :=
  ⟨readsAttributes f, ResolvedType.readsType_declared h k, ResolvedType.startsNameless_declared h⟩

theorem commaed_declared (fields : List ResolvedField) :
    commaed fieldTrees (fields.map declared) = fields.flatMap trees := by
  rw [commaed, List.flatMap_map]
  refine congrArg (List.flatMap · fields) (funext fun f => ?_)
  have hattributes := flatMap_attributes f
  simp only [fieldTrees, declared, hattributes, trees]
  simp [ResolvedType.declared]

end ResolvedField

namespace Schema

variable {g : Grammar} {m : ModelDeclaration} {fields : List ResolvedField}

theorem readsAttributes_docs (docs : List String) : ReadsAttributes g (docs.map docAttribute) := by
  intro ts w hts
  have hitem (d : String) : ReadsItem g [.word "doc", .mark '=' false, .leaf (.ofText d)]
      ⟨false, ["doc"], .expression⟩ := readsItem_literal rfl rfl rfl
  have hdocs : ∀ c ∈ docs.map (fun d => ([Tree.word "doc", .mark '=' false, .leaf (.ofText d)],
      AttributeItem.mk false ["doc"] .expression)), ReadsItem g c.1 c.2 := by
    simpa using fun d _ => hitem d
  have hread := attributes_eq (w := w) hdocs hts
  simp only [List.flatMap_map, List.map_map] at hread ⊢
  exact hread

theorem structTrees_eq (m : ModelDeclaration) (fields : List ResolvedField) :
    structTrees m fields = ((modelDocs m fields).map docAttribute).flatMap Attribute.trees
      ++ Rule.structTrees m.name (fields.map ResolvedField.declared) := by
  rw [structTrees, Rule.structTrees, ResolvedField.commaed_declared, List.flatMap_map]
  rfl

/-- No keyword stands where the name of the record or of a field should be. -/
def NamesFree (m : ModelDeclaration) (fields : List ResolvedField) : Prop :=
  Source.isIdentifier m.name = true ∧ ∀ f ∈ fields, NamesField f.name

/-- A resolved field as a text can hold it: all names are names, and those of types are no
keywords. -/
structure Spelled (f : ResolvedField) : Prop where
  named : IsName f.name
  typed : f.type.Named
  types : ∀ n ∈ f.type.names, NamesType n

/-- The rule for a struct with its attributes. -/
theorem struct_structTrees (m : ModelDeclaration) (fields : List ResolvedField) (k : Nat) :
    (do Rule.struct (Grammar.levels (k + 2)) (← Rule.attributes (Grammar.levels (k + 2))) :
      Rule StructDeclaration) ⟨structTrees m fields, []⟩ =
    Rule.struct (Grammar.levels (k + 2)) ((modelDocs m fields).map docAttribute)
      ⟨Rule.structTrees m.name (fields.map ResolvedField.declared),
        (((modelDocs m fields).map docAttribute).flatMap Attribute.trees).reverse⟩ := by
  have hend : Tree.startsWith "#"
      (Rule.structTrees m.name (fields.map ResolvedField.declared)) = false := rfl
  have hdocs := readsAttributes_docs (g := Grammar.levels (k + 2)) (modelDocs m fields) (w := []) hend
  rw [bind_eq, structTrees_eq, hdocs, Option.bind_some, List.append_nil]

theorem readsParts_fields (hfields : ∀ f ∈ fields, Spelled f) (k : Nat) :
    ∀ f ∈ fields.map ResolvedField.declared, ReadsParts (Grammar.levels (k + 2)) f := by
  intro f hf
  obtain ⟨r, hr, rfl⟩ := List.mem_map.1 hf
  exact ResolvedField.readsParts_declared (hfields r hr).types k

/-- Reading the text of a generated struct gives its declaration, unless a keyword is in the way. -/
theorem parse?_structText_eq_some (hm : IsName m.name) (hfields : ∀ f ∈ fields, Spelled f)
    {d : StructDeclaration} :
    StructDeclaration.parse? (structText m fields) = some d ↔
      NamesFree m fields ∧ d = declaration m fields := by
  have htrees := parse?_structText hm fun f hf => ⟨(hfields f hf).named, (hfields f hf).typed⟩
  have hlevels : Grammar.forTrees (structTrees m fields) =
      Grammar.levels (4 * (Tree.allTokens (structTrees m fields)).length + 14 + 2) := rfl
  have hparts := readsParts_fields hfields (4 * (Tree.allTokens (structTrees m fields)).length + 14)
  have hrule := struct_structTrees m fields (4 * (Tree.allTokens (structTrees m fields)).length + 14)
  rw [← hlevels] at hparts hrule
  have hfree : NamesFree m fields ↔ Source.isIdentifier m.name = true ∧
      ∀ f ∈ fields.map ResolvedField.declared, NamesField f.name := by
    simp [NamesFree, ResolvedField.declared]
  rw [StructDeclaration.parse?, ofText?, htrees, Option.bind_eq_bind, Option.bind_some, hfree]
  by_cases hnames : Source.isIdentifier m.name = true ∧
      ∀ f ∈ fields.map ResolvedField.declared, NamesField f.name
  · rw [whole?_of_some (hrule.trans (struct_eq hparts hnames.1 hnames.2))]
    constructor
    · intro h
      cases h
      exact ⟨hnames, rfl⟩
    · rintro ⟨-, rfl⟩
      rfl
  · rw [whole?_of_none (hrule.trans (struct_refuses hparts hnames))]
    constructor
    · intro h
      cases h
    · exact fun h => absurd h.1 hnames

/-- The argument of the attribute in front of a generated struct. -/
def fingerprintItem (n : Nat) : AttributeItem := ⟨false, ["fingerprint"], .integer ⟨false, n⟩⟩

theorem parse?_attributeText_items (fields : List ResolvedField) :
    AttributeItem.parse? (attributeText fields) =
      some [fingerprintItem (ResolvedField.fingerprint fields)] := by
  have hvalue (n : Nat) : literalValue [.leaf (.literal (toString n))] = .integer ⟨false, n⟩ := by
    simp only [literalValue, IntegerLiteral.ofWritten?_toString]
  have hitem (g : Grammar) (n : Nat) : ReadsItem g (fingerprintTrees n) (fingerprintItem n) := by
    have := readsItem_literal (g := g) (n := "fingerprint") rfl (t := .literal (toString n)) rfl rfl
    rwa [hvalue] at this
  rw [AttributeItem.parse?, ofText?, parse?_attributeText, Option.bind_eq_bind, Option.bind_some]
  exact whole?_of_some (commas_one (hitem _ _))

/-! ### Blueprints -/

end Schema

namespace ResolvedField

/-- The key of a blueprint. -/
def keyField (f : ResolvedField) : Blueprint.KeyField := ⟨[], f.name, Tree.allTokens f.type.trees⟩

/-- Any other field of a blueprint. -/
def valueField (f : ResolvedField) : Blueprint.ValueField :=
  ⟨[], f.name, Tree.allTokens f.type.trees, f.type.shape, f.type.names.map fun a => [.word a]⟩

/-- A resolved field as it comes out of a schema: its type goes with its role, and its name is not
reserved for anything else. -/
inductive Sorted : ResolvedField → Prop
  | key {name identity : String} (hname : name ∈ Schema.reservedFieldNames → name = "key") :
    Sorted ⟨name, .key, .identity identity⟩
  | value {name : String} {shape : FieldShape} {arguments : List String}
    (hname : name ∉ Schema.reservedFieldNames) (harity : arguments.length = shape.arity) :
    Sorted ⟨name, .value, .value shape arguments⟩

variable {f : ResolvedField}

theorem any_marksKey (f : ResolvedField) :
    f.declared.attributes.any Blueprint.marksKey = (f.role == .key) := by
  cases h : f.role <;> simp [declared, attributes, h, Blueprint.marksKey, AttributeItem.name?]

theorem types_arguments (arguments : List String) :
    (arguments.map fun a => Argument.type [Tree.word a]).filterMap Argument.type? =
      arguments.map fun a => [.word a] := by
  induction arguments with
  | nil => rfl
  | cons a arguments ih => rw [List.map_cons, List.filterMap_cons, ih]; rfl

theorem marker?_value {shape : FieldShape} {arguments : List String} :
    Blueprint.marker? (ResolvedType.value shape arguments).declared =
      some (shape, arguments.map fun a => [.word a]) := by
  have htypes : PathEnd.types ⟨shape.marker, some (arguments.map fun a => .type [.word a])⟩ =
      arguments.map fun a => [.word a] := types_arguments arguments
  have htokens (a : String) : Tree.allTokens [.word a] = [.word a] := rfl
  simp [Blueprint.marker?, ResolvedType.declared, FieldShape.ofMarker?_marker, htypes, htokens]

theorem valueField_declared {name : String} {shape : FieldShape} {arguments : List String}
    (hname : name ∉ Schema.reservedFieldNames) (harity : arguments.length = shape.arity) :
    Blueprint.valueField (declared ⟨name, .value, .value shape arguments⟩) =
      .ok (valueField ⟨name, .value, .value shape arguments⟩) := by
  simp only [Blueprint.valueField, declared, if_neg hname, marker?_value, List.length_map,
    if_pos harity]
  rfl

/-- A key is refused if its type is taken for a marker. -/
theorem keyField_declared {name identity : String}
    (hname : name ∈ Schema.reservedFieldNames → name = "key") :
    Blueprint.keyField false (declared ⟨name, .key, .identity identity⟩) =
      if (FieldShape.ofMarker? identity).isSome then .error .markedKey
      else .ok (keyField ⟨name, .key, .identity identity⟩) := by
  have hmarker : (Blueprint.marker? (ResolvedType.identity identity).declared).isSome =
      (FieldShape.ofMarker? identity).isSome := by
    cases h : FieldShape.ofMarker? identity <;> simp [Blueprint.marker?, ResolvedType.declared, h]
  have hreserved : ¬ (name ≠ "key" ∧ name ∈ Schema.reservedFieldNames) :=
    fun h => h.1 (hname h.2)
  simp only [Blueprint.keyField, declared, hmarker, Bool.false_eq_true, if_false]
  split
  · rfl
  · exact if_neg hreserved

variable {fields : List ResolvedField}

theorem sortFields_values (hsorted : ∀ f ∈ fields, f.Sorted)
    (hvalues : ∀ f ∈ fields, f.role = .value) (key : Option Blueprint.KeyField) :
    Blueprint.sortFields key (fields.map declared) = .ok (key, fields.map valueField) := by
  induction fields with
  | nil => rfl
  | cons f fields ih =>
    have hrest := ih (fun g hg => hsorted g (List.mem_cons_of_mem _ hg))
      (fun g hg => hvalues g (List.mem_cons_of_mem _ hg))
    have hrole := hvalues f List.mem_cons_self
    have hunmarked : f.declared.attributes.any Blueprint.marksKey = false := by
      rw [any_marksKey, hrole]
      rfl
    rcases hsorted f List.mem_cons_self with _ | ⟨hname, harity⟩
    · cases hrole
    · simp only [List.map_cons, Blueprint.sortFields, hunmarked, valueField_declared hname harity,
        hrest]
      rfl

/-- The fields of a declaration with one key are sorted into the key and the others, unless the type
of the key is taken for a marker. -/
theorem sortFields_declared (hsorted : ∀ f ∈ fields, f.Sorted) {name identity : String}
    (hkey : fields.filter (fun f => f.role == .key) = [⟨name, .key, .identity identity⟩]) :
    Blueprint.sortFields none (fields.map declared) =
      if (FieldShape.ofMarker? identity).isSome then .error .markedKey
      else .ok (some (keyField ⟨name, .key, .identity identity⟩),
        (fields.filter fun f => f.role == .value).map valueField) := by
  induction fields with
  | nil => cases hkey
  | cons f fields ih =>
    have hothers (g : ResolvedField) (hg : g ∈ fields) := hsorted g (List.mem_cons_of_mem _ hg)
    rcases hsorted f List.mem_cons_self with hname | ⟨hname, harity⟩
    · -- no other field is a key
      rw [List.filter_cons_of_pos rfl, List.cons.injEq] at hkey
      obtain ⟨heq, hnone⟩ := hkey
      have hvalues : ∀ g ∈ fields, g.role = .value := by
        intro g hg
        have := List.filter_eq_nil_iff.1 hnone g hg
        cases hrole : g.role with
        | key => simp [hrole] at this
        | value => rfl
      have hall : fields.filter (fun f => f.role == .value) = fields := by
        rw [List.filter_eq_self]
        intro g hg
        rw [hvalues g hg]
        rfl
      cases heq
      have hmarked : (declared ⟨name, .key, .identity identity⟩).attributes.any
          Blueprint.marksKey = true :=
        any_marksKey _
      rw [List.map_cons, Blueprint.sortFields, hmarked, if_pos rfl, Option.isSome_none,
        keyField_declared hname, List.filter_cons_of_neg (by simp), hall]
      split
      · rfl
      · exact sortFields_values hothers hvalues _
    · rename_i other shape arguments
      have hrest := ih hothers (by rwa [List.filter_cons_of_neg (by simp)] at hkey)
      have hunmarked : (declared ⟨other, .value, .value shape arguments⟩).attributes.any
          Blueprint.marksKey = false :=
        any_marksKey _
      rw [List.map_cons, Blueprint.sortFields, hunmarked, if_neg Bool.false_ne_true,
        valueField_declared hname harity, hrest, List.filter_cons_of_pos (by rfl)]
      split <;> rfl

end ResolvedField

namespace Schema

variable {m : ModelDeclaration} {fields : List ResolvedField} {name identity : String}

/-- The blueprint of a generated struct, whose key is `key`. -/
def blueprint (m : ModelDeclaration) (key : ResolvedField) (fields : List ResolvedField) :
    Blueprint where
  attributes := (modelDocs m fields).map docAttribute
  visibility := [.word "pub"]
  name := m.name
  key := key.keyField
  fields := (fields.filter fun f => f.role == .value).map ResolvedField.valueField
  fingerprint := some (ResolvedField.fingerprint fields)

theorem arguments_fingerprintItem {n : Nat} (hn : n < 0x10000000000000000) :
    Blueprint.arguments none [fingerprintItem n] = .ok (some n) := by
  have hword : IntegerLiteral.toWord ⟨false, n⟩ = .ok n := if_pos hn
  simp only [Blueprint.arguments, Blueprint.argument, fingerprintItem, AttributeItem.name?, hword]
  rfl

/-- The source text of a generated struct gives its blueprint and no other, unless a keyword is in
the way or the type of the key is taken for a marker. -/
theorem ofSource_eq_ok_iff (hm : IsName m.name) (hspelled : ∀ f ∈ fields, Spelled f)
    (hsorted : ∀ f ∈ fields, f.Sorted)
    (hkey : fields.filter (fun f => f.role == .key) = [⟨name, .key, .identity identity⟩])
    {b : Blueprint} :
    Blueprint.ofSource (attributeText fields) (structText m fields) = .ok b ↔
      NamesFree m fields ∧ FieldShape.ofMarker? identity = none ∧
        b = blueprint m ⟨name, .key, .identity identity⟩ fields := by
  have hparse {d : StructDeclaration} := parse?_structText_eq_some (d := d) hm hspelled
  have harguments := arguments_fingerprintItem
    (Fingerprint.ofShape_lt (fields.map fun f => (f.name, f.type.bareName)))
  have hsort := ResolvedField.sortFields_declared hsorted hkey
  rw [Blueprint.ofSource, parse?_attributeText_items]
  cases hdeclaration : StructDeclaration.parse? (structText m fields) with
  | none =>
    have hkeyword : ¬ NamesFree m fields := by
      intro hfree
      rw [hparse.2 ⟨hfree, rfl⟩] at hdeclaration
      cases hdeclaration
    simp [hkeyword]
  | some d =>
    obtain ⟨hfree, rfl⟩ := hparse.1 hdeclaration
    have hof : Blueprint.ofDeclaration [fingerprintItem (ResolvedField.fingerprint fields)]
        (declaration m fields) =
        if (FieldShape.ofMarker? identity).isSome then .error .markedKey
        else .ok (blueprint m ⟨name, .key, .identity identity⟩ fields) := by
      simp only [Blueprint.ofDeclaration, declaration, ResolvedField.fingerprint, harguments, hsort,
        Bool.false_eq_true, if_false]
      split <;> rfl
    simp only [hof, hfree, true_and]
    cases hmarker : FieldShape.ofMarker? identity with
    | none =>
      simp only [Option.isSome_none, Bool.false_eq_true, if_false, true_and]
      constructor
      · intro h
        cases h
        rfl
      · rintro rfl
        rfl
    | some shape =>
      simp only [Option.isSome_some, if_true, reduceCtorEq, false_and, iff_false]
      intro h
      cases h

end Schema

end VersionedRecords
