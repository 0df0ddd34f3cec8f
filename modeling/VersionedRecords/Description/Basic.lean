import VersionedRecords.Description.Fingerprint
import VersionedRecords.Layout

/-!
Descriptions: what a kind of record tells about itself at run time.  A description lists the fields
with the texts of their types; unlike a layout it may be wrong, and `check` finds out.
-/

namespace VersionedRecords

/-- Whether a field belongs to the identity of a record or to its content. -/
inductive FieldRole
  | key
  | value
deriving DecidableEq, Repr

def FieldRole.name : FieldRole → String
  | key => "Key"
  | value => "Val"

/-- What a description says about one field. -/
structure FieldDescription where
  name : String
  role : FieldRole
  shape : FieldShape
  /-- The bare type name that enters the fingerprint. -/
  typeName : String
  /-- The types inside, as they were written. -/
  typeArguments : List String
deriving DecidableEq, Repr

structure Description where
  name : String
  fields : List FieldDescription
deriving DecidableEq, Repr

/-- What can be wrong with a description. -/
inductive DescriptionFault
  | keyCount (count : Nat)
  | repeatedField (field : String)
  | keyShape (field : String) (shape : FieldShape)
  | argumentCount (field : String) (shape : FieldShape) (count : Nat)
deriving DecidableEq, Repr

namespace DescriptionFault

/-- The kind of failure, as reported beside its message. -/
def kind : String := "UnsupportedFieldKind"

/-- The field that is at fault; empty where the whole description is. -/
def field : DescriptionFault → String
  | keyCount _ => ""
  | repeatedField f | keyShape f _ | argumentCount f _ _ => f

def reason : DescriptionFault → String
  | keyCount n => "expected exactly one key field, found " ++ toString n
  | repeatedField _ => "duplicate field name"
  | keyShape _ s => "key field must be a scalar, not " ++ s.marker
  | argumentCount _ s n =>
    s.marker ++ " takes " ++ toString s.arity ++ " type argument(s), found " ++ toString n

def message (model : String) (f : DescriptionFault) : String :=
  "unsupported field kind for `" ++ model ++ "." ++ f.field ++ "`: " ++ f.reason

end DescriptionFault

namespace Description

def keyFields (d : Description) : List FieldDescription := d.fields.filter fun f => f.role == .key

def keyField? (d : Description) : Option FieldDescription := d.fields.find? fun f => f.role == .key

def valueFields (d : Description) : List FieldDescription :=
  d.fields.filter fun f => f.role == .value

def field? (d : Description) (name : String) : Option FieldDescription :=
  d.fields.find? fun f => f.name == name

def shape (d : Description) : Fingerprint.Shape := d.fields.map fun f => (f.name, f.typeName)

def fingerprint (d : Description) : Nat := Fingerprint.ofShape d.shape

/-- What is wrong with one field, given the names of the fields before it. -/
def fieldFault? (seen : List String) (f : FieldDescription) : Option DescriptionFault :=
  if f.name ∈ seen then some (.repeatedField f.name)
  else if f.role = .key ∧ f.shape ≠ .scalar then some (.keyShape f.name f.shape)
  else if f.typeArguments.length ≠ f.shape.arity then
    some (.argumentCount f.name f.shape f.typeArguments.length)
  else none

/-- The first thing that is wrong with some fields, given the names of the fields before them. -/
def fieldsFault? (seen : List String) : List FieldDescription → Option DescriptionFault
  | [] => none
  | f :: rest => (fieldFault? seen f).or (fieldsFault? (f.name :: seen) rest)

/-- The first thing that is wrong with a description. -/
def fault? (d : Description) : Option DescriptionFault :=
  if d.keyFields.length = 1 then fieldsFault? [] d.fields else some (.keyCount d.keyFields.length)

end Description

namespace Layout

/-- What the kind of a field says about itself: the types inside, and the bare name that enters the
fingerprint, which is the type of a plain value or of a sub-record and the marker of a collection.
-/
def describeField (f : Field) : FieldDescription where
  name := f.name
  role := .value
  shape := f.kind.shape
  typeName := match f.kind with
    | .scalar t | .attached t => Text.bareTypeName t.name
    | .nested model => Text.bareTypeName model
    | kind => kind.shape.marker
  typeArguments := f.kind.typeNames

/-- The description of the records of a layout; the key comes first. -/
def describe (l : Layout) : Description where
  name := l.name
  fields :=
    ⟨l.keyName, .key, .scalar, Text.bareTypeName l.keyType.name, [l.keyType.name]⟩
      :: l.fields.map describeField

end Layout

end VersionedRecords
