import VersionedRecords.Schema.Basic
import VersionedRecords.Schema.TypeExpression

/-!
Resolving types: what a type expression means in a schema, and which kind of field comes of it.
-/

namespace VersionedRecords

/-- What a type name refers to. -/
inductive TypeClass
  | primitive
  | enumeration
  | key
  | imported
  | model
deriving DecidableEq, Repr

/-- The class of a type name.  Where a name is declared more than once, records come before keys,
keys before enumerations, these before imports, and all of them before the primitive types. -/
def Schema.classOf? (s : Schema) (name : String) : Option TypeClass :=
  if s.models.any fun m => m.name == name then some .model
  else if s.keys.any fun k => k.name == name then some .key
  else if s.enums.any fun e => e.name == name then some .enumeration
  else if s.imports.any fun i => i.name == name then some .imported
  else if name ∈ Schema.primitives then some .primitive
  else none

/-- Whether the values of a class are compared by equality and have an order. -/
def TypeClass.isScalar : TypeClass → Bool
  | primitive | enumeration | key => true
  | imported | model => false

/-- Why a type cannot identify anything. -/
inductive IdentityFault
  | unknown (name : String)
  | unordered (name : String)
  | unsuitable (name : String)
deriving DecidableEq, Repr

def IdentityFault.message : IdentityFault → String
  | unknown name => "unknown type `" ++ name ++ "`"
  | unordered name => "`" ++ name ++ "` has no total order and cannot be used as a key"
  | unsuitable name =>
    "`" ++ name ++ "` cannot be used as a key; expected a primitive, enum or key type"

/-- Succeeds when a type can identify something: a member of a set, an entry of a map, a record. -/
def Schema.checkIdentity (s : Schema) (name : String) : Except IdentityFault Unit :=
  match s.classOf? name with
  | none => .error (.unknown name)
  | some c =>
    if name ∈ Schema.unorderedPrimitives then .error (.unordered name)
    else if c.isScalar then .ok ()
    else .error (.unsuitable name)

/-- The places in a collection type that ask for an identity. -/
inductive IdentityPlace
  | setElement
  | mapKey
deriving DecidableEq, Repr

def IdentityPlace.name : IdentityPlace → String
  | setElement => "set element"
  | mapKey => "map key"

/-- Why a type expression cannot be the type of a field. -/
inductive TypeFault
  | malformed (text : String)
  | keyIsCollection (text : String)
  | keyIdentity (cause : IdentityFault)
  | unknown (name : String)
  | placeIsCollection (place : IdentityPlace)
  | placeIdentity (place : IdentityPlace) (cause : IdentityFault)
  | valueIsCollection
deriving DecidableEq, Repr

def TypeFault.message : TypeFault → String
  | malformed text => "malformed type `" ++ text ++ "`"
  | keyIsCollection text => "key field cannot be a collection (`" ++ text ++ "`)"
  | keyIdentity cause => cause.message
  | unknown name => "unknown type `" ++ name ++ "`"
  | placeIsCollection place => place.name ++ " cannot be a collection"
  | placeIdentity place cause => "invalid " ++ place.name ++ ": " ++ cause.message
  | valueIsCollection => "map values cannot be collections"

/-- What the type of a field comes to. -/
inductive ResolvedType
  /-- The bare type of a key field. -/
  | identity (name : String)
  /-- A kind of field with the types inside. -/
  | value (shape : FieldShape) (arguments : List String)
deriving DecidableEq, Repr

namespace ResolvedType

def shape : ResolvedType → FieldShape
  | identity _ => .scalar
  | value shape _ => shape

/-- The type as it is written in generated code. -/
def written : ResolvedType → String
  | identity name => name
  | value shape arguments => shape.marker ++ "<" ++ ", ".intercalate arguments ++ ">"

/-- The bare name that enters the fingerprint. -/
def bareName : ResolvedType → String
  | identity name => name
  | value shape arguments =>
    match shape with
    | .scalar | .attached | .nested => Text.bareTypeName (", ".intercalate arguments)
    | _ => shape.marker

end ResolvedType

namespace Schema

/-- The name in a place that asks for an identity. -/
def identityIn (s : Schema) (place : IdentityPlace) (t : TypeExpression) :
    Except TypeFault String := do
  match t.name? with
  | none => .error (.placeIsCollection place)
  | some name => match s.checkIdentity name with
    | .ok () => .ok name
    | .error cause => .error (.placeIdentity place cause)

/-- What the type of a key field comes to. -/
def resolveKey (s : Schema) (text : String) (t : TypeExpression) :
    Except TypeFault ResolvedType :=
  match t.name? with
  | none => .error (.keyIsCollection text)
  | some name => match s.checkIdentity name with
    | .ok () => .ok (.identity name)
    | .error cause => .error (.keyIdentity cause)

/-- What the type of any other field comes to. -/
def resolveValue (s : Schema) : TypeExpression → Except TypeFault ResolvedType
  | .name name => match s.classOf? name with
    | none => .error (.unknown name)
    | some .imported => .ok (.value .attached [name])
    | some .model => .ok (.value .nested [name])
    | some _ => .ok (.value .scalar [name])
  | .set element => do return .value .keySet [← s.identityIn .setElement element]
  | .map key value => do
    let key ← s.identityIn .mapKey key
    match value.name? with
    | none => .error .valueIsCollection
    | some name => match s.classOf? name with
      | none => .error (.unknown name)
      | some .model => .ok (.value .modelMap [key, name])
      | some _ => .ok (.value .valueMap [key, name])

/-- What a written type comes to in a field of the given role. -/
def resolve (s : Schema) (role : FieldRole) (text : String) : Except TypeFault ResolvedType :=
  match TypeExpression.parse? text.toList with
  | none => .error (.malformed text)
  | some t => match role with
    | .key => s.resolveKey text t
    | .value => s.resolveValue t

end Schema

/-- A field with its type resolved. -/
structure ResolvedField where
  name : String
  role : FieldRole
  type : ResolvedType
deriving DecidableEq, Repr

namespace ResolvedField

/-- The fingerprint of some resolved fields. -/
def fingerprint (fields : List ResolvedField) : Nat :=
  Fingerprint.ofShape (fields.map fun f => (f.name, f.type.bareName))

end ResolvedField

/-- A field whose type could not be resolved. -/
structure UnresolvedField where
  field : String
  cause : TypeFault
deriving DecidableEq, Repr

def UnresolvedField.message (u : UnresolvedField) : String :=
  "field `" ++ u.field ++ "`: " ++ u.cause.message

/-- Resolves the fields of a record, up to the first that cannot be resolved. -/
def Schema.resolveModel (s : Schema) (m : ModelDeclaration) :
    Except UnresolvedField (List ResolvedField) :=
  m.fields.mapM fun f =>
    match s.resolve f.role f.type with
    | .ok t => .ok ⟨f.name, f.role, t⟩
    | .error cause => .error ⟨f.name, cause⟩

end VersionedRecords
