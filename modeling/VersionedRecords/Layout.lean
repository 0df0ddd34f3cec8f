import VersionedRecords.Datum

/-!
Layouts: what a kind of record looks like.  A layout names the key and the fields of the records it
describes and says of each field which of six kinds it is.  Fields that hold sub-records name the
layout of these, so layouts may refer to each other and to themselves.
-/

namespace VersionedRecords

/-- The six kinds of fields, without the types inside. -/
inductive FieldShape
  /-- A plain value. -/
  | scalar
  /-- A plain value that may be absent and is absent at first. -/
  | attached
  /-- A sub-record that may be absent. -/
  | nested
  /-- A set of keys. -/
  | keySet
  /-- A map from keys to plain values. -/
  | valueMap
  /-- A map from keys to sub-records. -/
  | modelMap
deriving DecidableEq, Repr

namespace FieldShape

def all : List FieldShape := [scalar, attached, nested, keySet, valueMap, modelMap]

/-- The name by which a declaration asks for the kind. -/
def marker : FieldShape → String
  | scalar => "Scalar"
  | attached => "Opaque"
  | nested => "Nested"
  | keySet => "KeySet"
  | valueMap => "KeyValueMap"
  | modelMap => "KeyModelMap"

/-- The kind with a given marker. -/
def ofMarker? (s : String) : Option FieldShape := all.find? fun k => k.marker == s

/-- How many types a declaration of the kind takes. -/
def arity : FieldShape → Nat
  | valueMap | modelMap => 2
  | _ => 1

/-- Whether a draft can show a field of this kind without making it editable. -/
def readable : FieldShape → Bool
  | nested | modelMap => false
  | _ => true

theorem ofMarker?_marker (k : FieldShape) : ofMarker? k.marker = some k := by
  cases k <;> decide

end FieldShape

/-- The kind of a field with the types inside; sub-records are named by their layout. -/
inductive FieldKind
  | scalar (type : DatumType)
  | attached (type : DatumType)
  | nested (model : String)
  | keySet (key : KeyType)
  | valueMap (key : KeyType) (value : DatumType)
  | modelMap (key : KeyType) (model : String)
deriving DecidableEq, Repr

namespace FieldKind

def shape : FieldKind → FieldShape
  | scalar _ => .scalar
  | attached _ => .attached
  | nested _ => .nested
  | keySet _ => .keySet
  | valueMap _ _ => .valueMap
  | modelMap _ _ => .modelMap

/-- The names of the types inside, in the order of the declaration. -/
def typeNames : FieldKind → List String
  | scalar t | attached t => [t.name]
  | nested m => [m]
  | keySet k => [k.name]
  | valueMap k v => [k.name, v.name]
  | modelMap k m => [k.name, m]

theorem length_typeNames (k : FieldKind) : k.typeNames.length = k.shape.arity := by
  cases k <;> rfl

end FieldKind

/-- A field other than the key. -/
structure Field where
  name : String
  kind : FieldKind
deriving DecidableEq, Repr

/-- The description of one kind of record. -/
structure Layout where
  name : String
  keyName : String
  keyType : KeyType
  fields : List Field
  /-- The fingerprint stated where the layout was declared, if one was. -/
  declaredFingerprint : Option Nat := none
deriving DecidableEq, Repr

namespace Layout

/-- The kinds of the fields, in order. -/
def kinds (l : Layout) : List FieldKind := l.fields.map Field.kind

/-- The position of the field with a given name. -/
def indexOf? (l : Layout) (name : String) : Option Nat :=
  l.fields.findIdx? fun f => f.name == name

end Layout

end VersionedRecords
