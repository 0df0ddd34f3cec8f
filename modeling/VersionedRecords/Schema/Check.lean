import VersionedRecords.Schema.Resolve

/-!
Checking schemas.  `Schema.faults` lists everything that is wrong with a schema, in the order of the
declarations; a schema without faults can be turned into code.
-/

namespace VersionedRecords

/-- A rule that a schema breaks. -/
inductive SchemaRule
  | outputEmpty
  | noModels
  | typeName
  | shadowsPrimitive
  | repeatedType
  | pathEmpty
  | noVariants
  | variantName
  | repeatedVariant
  | defaultUnknown
  | noKeyParts
  | repeatedField
  | fieldName
  | reservedField
  | partIdentity (cause : IdentityFault)
  | partRole
  | keyCount (count : Nat)
  | fieldType (cause : TypeFault)
  | unresolved (cause : UnresolvedField)
deriving DecidableEq, Repr

def SchemaRule.message : SchemaRule → String
  | outputEmpty => "config.output must not be empty"
  | noModels => "schema must define at least one model"
  | typeName => "type name must be PascalCase (start with uppercase)"
  | shadowsPrimitive => "type name shadows a primitive"
  | repeatedType => "duplicate type name"
  | pathEmpty => "import path must not be empty"
  | noVariants => "enum must have at least one variant"
  | variantName => "variant name must be PascalCase"
  | repeatedVariant => "duplicate variant"
  | defaultUnknown => "default is not one of the variants"
  | noKeyParts => "key type must have at least one field"
  | repeatedField => "duplicate field name"
  | fieldName => "field name must be snake_case (start with lowercase)"
  | reservedField => "field name is reserved by the generated builder and delta types"
  | partIdentity cause => cause.message
  | partRole => "key type parts cannot carry a modifier"
  | keyCount n => "model must have exactly one key field, found " ++ toString n
  | fieldType cause => cause.message
  | unresolved cause => cause.message

/-- A rule that is broken, and where. -/
structure SchemaFault where
  rule : SchemaRule
  /-- The declared type at fault, if the fault is not one of the whole schema. -/
  type : Option String := none
  /-- The field or variant at fault. -/
  field : Option String := none
deriving DecidableEq, Repr

/-- The rule with the place in front. -/
def SchemaFault.text (f : SchemaFault) : String :=
  let place := (f.type.map ("type=" ++ ·)).toList ++ (f.field.map ("field=" ++ ·)).toList
  if place.isEmpty then f.rule.message
  else "[" ++ ", ".intercalate place ++ "] " ++ f.rule.message

/-- A fault, if a condition holds. -/
def SchemaFault.when (p : Prop) [Decidable p] (f : SchemaFault) : List SchemaFault :=
  if p then [f] else []

namespace Schema

open SchemaFault (when)

/-- The faults of the schema as a whole. -/
def wholeFaults (s : Schema) : List SchemaFault :=
  when (s.output = "") ⟨.outputEmpty, none, none⟩ ++ when (s.models = []) ⟨.noModels, none, none⟩

/-- The faults of type names, given the names before them. -/
def typeNameFaults (seen : List String) : List String → List SchemaFault
  | [] => []
  | name :: rest =>
    when (¬isPascalCase name) ⟨.typeName, some name, none⟩
      ++ when (name ∈ primitives) ⟨.shadowsPrimitive, some name, none⟩
      ++ when (name ∈ seen) ⟨.repeatedType, some name, none⟩
      ++ typeNameFaults (name :: seen) rest

def importFaults (i : ImportDeclaration) : List SchemaFault :=
  when (Text.isBlankText i.path.toList) ⟨.pathEmpty, some i.name, none⟩

/-- The faults of the variants of an enumeration, given the variants before them. -/
def variantFaults (type : String) (seen : List String) : List String → List SchemaFault
  | [] => []
  | v :: rest =>
    when (¬isPascalCase v) ⟨.variantName, some type, some v⟩
      ++ when (v ∈ seen) ⟨.repeatedVariant, some type, some v⟩
      ++ variantFaults type (v :: seen) rest

def enumFaults (e : EnumDeclaration) : List SchemaFault :=
  when (e.variants = []) ⟨.noVariants, some e.name, none⟩
    ++ variantFaults e.name [] e.variants
    ++ match e.default with
      | some d => when (d ∉ e.variants) ⟨.defaultUnknown, some e.name, some d⟩
      | none => []

/-- Whether the name of a record's field is kept for the generated code. -/
def isReserved (f : FieldDeclaration) : Bool :=
  !(f.role == .key && f.name == "key") && f.name ∈ reservedFieldNames

/-- The faults of field names, given the names before them. -/
def fieldNameFaults (type : String) (reserve : Bool) (seen : List String) :
    List FieldDeclaration → List SchemaFault
  | [] => []
  | f :: rest =>
    when (f.name ∈ seen) ⟨.repeatedField, some type, some f.name⟩
      ++ when (¬isSnakeCase f.name) ⟨.fieldName, some type, some f.name⟩
      ++ when (reserve ∧ isReserved f) ⟨.reservedField, some type, some f.name⟩
      ++ fieldNameFaults type reserve (f.name :: seen) rest

/-- The faults of one part of a key. -/
def partFaults (s : Schema) (type : String) (f : FieldDeclaration) : List SchemaFault :=
  (match s.checkIdentity (String.ofList (Text.trim f.type.toList)) with
    | .ok () => []
    | .error cause => [⟨.partIdentity cause, some type, some f.name⟩])
    ++ when (f.role = .key) ⟨.partRole, some type, some f.name⟩

def keyFaults (s : Schema) (k : KeyDeclaration) : List SchemaFault :=
  when (k.fields = []) ⟨.noKeyParts, some k.name, none⟩
    ++ fieldNameFaults k.name false [] k.fields
    ++ k.fields.flatMap (s.partFaults k.name)

/-- The faults of the type of a record's field. -/
def fieldTypeFaults (s : Schema) (type : String) (f : FieldDeclaration) : List SchemaFault :=
  match s.resolve f.role f.type with
  | .ok _ => []
  | .error cause => [⟨.fieldType cause, some type, some f.name⟩]

def modelFaults (s : Schema) (m : ModelDeclaration) : List SchemaFault :=
  fieldNameFaults m.name true [] m.fields
    ++ when (m.keyFields.length ≠ 1) ⟨.keyCount m.keyFields.length, some m.name, none⟩
    ++ m.fields.flatMap (s.fieldTypeFaults m.name)

/-- Everything that is wrong with a schema. -/
def faults (s : Schema) : List SchemaFault :=
  s.wholeFaults ++ typeNameFaults [] s.declaredNames ++ s.imports.flatMap importFaults
    ++ s.enums.flatMap enumFaults ++ s.keys.flatMap s.keyFaults ++ s.models.flatMap s.modelFaults

end Schema

end VersionedRecords
