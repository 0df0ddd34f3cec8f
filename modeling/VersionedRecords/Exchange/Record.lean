import VersionedRecords.Exchange.Datum
import VersionedRecords.Record.Diff

/-!
The JSON forms of snapshots, changes, drafts and accumulators.  Fields are named; a change names
only the fields it carries.  A change is read by merging what is given for each field, in the order
of the field names, into an accumulator, so that whatever is read is a change that could have been
found.
-/

namespace VersionedRecords

/-- An object of the fields of a layout. -/
def Layout.fieldsToJson (l : Layout) (values : List Json) : Json :=
  .object ((l.fields.map Field.name).zip values)

/-- The layout of a given name. -/
def Layout.named? (layouts : List Layout) (name : String) : Option Layout :=
  layouts.find? fun l => l.name == name

def Layout.field? (l : Layout) (name : String) : Option Field :=
  l.fields.find? fun f => f.name == name

namespace Snapshot

mutual

def toJson : Snapshot → Json
  | ⟨layout, key, _, fields⟩ =>
    .object [("key", key.toJson), ("fields", layout.fieldsToJson (fieldsToJson fields))]

def fieldsToJson : List (Value Snapshot) → List Json
  | [] => []
  | v :: vs => valueToJson v :: fieldsToJson vs

def valueToJson : Value Snapshot → Json
  | .scalar v => v.toJson
  | .attached v => Json.option Datum.toJson v
  | .nested none => .null
  | .nested (some s) => toJson s
  | .keySet _ ms => KeySet.toJson ms
  | .valueMap _ es => Keyed.toJson Datum.toJson es
  | .modelMap _ es => .list (entriesToJson es)

def entriesToJson : List (Key × Snapshot) → List Json
  | [] => []
  | (k, s) :: rest => .list [k.toJson, toJson s] :: entriesToJson rest

end

end Snapshot

namespace Change

mutual

def toJson : Change → Json
  | ⟨layout, intent, key, fields⟩ =>
    .object [("type", intent.toJson), ("key", key.toJson),
      ("fields", .object (fieldsToJson (layout.fields.map Field.name) fields))]

def fieldsToJson : List String → List (Option (Payload Change)) → List (String × Json)
  | _ :: names, none :: ps => fieldsToJson names ps
  | name :: names, some p :: ps => (name, payloadToJson p) :: fieldsToJson names ps
  | _, _ => []

def payloadToJson : Payload Change → Json
  | .scalar v => v.toJson
  | .attached v => Json.option Datum.toJson v
  | .nested c => toJson c
  | .keySet cs => .list (cs.map MemberChange.toJson)
  | .valueMap cs => .list (cs.map EntryChange.toJson)
  | .modelMap cs => .list (entriesToJson cs)

def entriesToJson : List (RecordEntryChange Change) → List Json
  | [] => []
  | ⟨intent, key, c⟩ :: rest =>
    .list [intent.toJson, key.toJson, toJson c] :: entriesToJson rest

end

end Change

def RecordEntryChange.toJson (c : RecordEntryChange Change) : Json :=
  .list [c.intent.toJson, c.key.toJson, c.change.toJson]

/-- The state of a draft: what it builds, and how it came to that. -/
def Draft.toJson (d : Draft) : Json :=
  .object [("key", d.key.toJson), ("last", Json.option Intent.toJson d.lastIntent),
    ("touched", .bool d.isTouched), ("has_reference", .bool d.reference.isSome),
    ("build", Json.option Snapshot.toJson (d.build 0))]

def Working.toJson : Working Draft → Json
  | .scalar v => v.toJson
  | .attached v => Json.option Datum.toJson v
  | .nested d => Json.option Draft.toJson d
  | .keySet ms => KeySet.toJson ms
  | .valueMap es => Keyed.toJson Datum.toJson es
  | .modelMap es => Keyed.toJson Draft.toJson es

def Accumulator.toJson (a : Accumulator) : Json :=
  .object [("key", a.key.toJson), ("type", a.state.current.toJson),
    ("initial", a.state.initial.toJson), ("delta", Json.option Change.toJson a.build)]

/-- The members that report a refusal. -/
def IdentityMismatch.toMembers (e : IdentityMismatch) : List (String × Json) :=
  [("error", .text IdentityMismatch.kind), ("message", .text e.message)]

end VersionedRecords
