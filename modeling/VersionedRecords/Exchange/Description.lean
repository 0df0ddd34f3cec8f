import VersionedRecords.Description.Basic
import VersionedRecords.Exchange.Datum

/-!
The JSON forms of descriptions.
-/

namespace VersionedRecords

def FieldRole.ofName? : String → Option FieldRole
  | "Key" => some .key
  | "Val" => some .value
  | _ => none

namespace FieldDescription

def toJson (f : FieldDescription) : Json :=
  .object [("name", .text f.name), ("modifier", .text f.role.name), ("kind", .text f.shape.marker),
    ("arity", .nat f.shape.arity), ("type_name", .text f.typeName),
    ("type_args", .list (f.typeArguments.map .text))]

def ofJson? (j : Json) : Option FieldDescription := do
  return {
    name := ← j.member? "name" >>= textOfJson?
    role := ← j.member? "modifier" >>= textOfJson? >>= FieldRole.ofName?
    shape := ← j.member? "kind" >>= textOfJson? >>= FieldShape.ofMarker?
    typeName := ← j.member? "type_name" >>= textOfJson?
    typeArguments := ← (← j.member? "type_args" >>= Json.list?).mapM textOfJson? }

end FieldDescription

namespace Description

def checkToJson (d : Description) : Json :=
  match d.fault? with
  | none => .text "ok"
  | some f =>
    .object [("error", .text DescriptionFault.kind), ("message", .text (f.message d.name))]

def toMembers (d : Description) : List (String × Json) :=
  [("name", .text d.name), ("fields", .list (d.fields.map FieldDescription.toJson)),
    ("key_field", Json.option (fun f => .text f.name) d.keyField?),
    ("val_fields", .list (d.valueFields.map fun f => .text f.name)),
    ("fingerprint", .nat d.fingerprint), ("validate", d.checkToJson)]

def ofJson? (j : Json) : Option Description := do
  return {
    name := ← j.member? "name" >>= textOfJson?
    fields := ← (← j.member? "fields" >>= Json.list?).mapM FieldDescription.ofJson? }

/-- The kinds of the fields with the given names. -/
def lookupToJson (d : Description) (names : List String) : Json :=
  .list (names.map fun n => Json.option (fun f => .text f.shape.marker) (d.field? n))

end Description

namespace Layout

/-- The description of a layout, with its fingerprint and the one that its declaration states. -/
def describeToJson (l : Layout) : Json :=
  .object (l.describe.toMembers ++ [("model_fingerprint", .nat l.describe.fingerprint),
    ("schema_fingerprint", Json.option .nat l.declaredFingerprint)])

end Layout

end VersionedRecords
