import VersionedRecords.Layout
import VersionedRecords.Schema.Names
import VersionedRecords.Source.Declaration

/-!
Blueprints: declarations of records that have passed all checks.  A declaration is a struct with
named fields, one of which is marked as the key; the type of every other field is a marker that
names the kind of the field, with the types inside as its arguments.
-/

namespace VersionedRecords

open Source

/-- Why a declaration is no blueprint. -/
inductive BlueprintFault
  | fingerprintNumber (fault : NumberFault)
  | fingerprintNotWhole
  | unknownArgument (name : String)
  | generic
  | unnamedFields
  | secondKey
  | markedKey
  | reserved (name : String)
  | unmarkedField
  | argumentCount (shape : FieldShape) (count : Nat)
  | missingKey
deriving DecidableEq, Repr

namespace BlueprintFault

def message : BlueprintFault → String
  | fingerprintNumber fault => fault.message
  | fingerprintNotWhole => "`fingerprint` expects an integer literal"
  | unknownArgument name => "unknown attribute `" ++ name ++ "`"
  | generic => "#[model] does not support generic structs"
  | unnamedFields => "#[model] requires a struct with named fields"
  | secondKey => "only one field may be marked #[key]"
  | markedKey => "the #[key] field takes the plain identity type, not a field-kind marker"
  | reserved name => "`" ++ name ++ "` is reserved by the generated builder and delta types"
  | unmarkedField =>
    "unsupported field kind: expected Scalar<T>, Opaque<T>, Nested<M>, KeySet<K>, "
      ++ "KeyValueMap<K, V> or KeyModelMap<K, M>"
  | argumentCount shape count =>
    shape.marker ++ " takes " ++ toString shape.arity ++ " type argument(s), found "
      ++ toString count
  | missingKey => "#[model] requires exactly one field marked #[key]"

end BlueprintFault

namespace Blueprint

/-- The key of a record, without the attribute that marks it. -/
structure KeyField where
  attributes : List Attribute
  name : String
  type : List Token

/-- Any other field of a record. -/
structure ValueField where
  attributes : List Attribute
  name : String
  /-- The type as it was written, with its marker. -/
  type : List Token
  shape : FieldShape
  /-- The types inside. -/
  arguments : List (List Token)

end Blueprint

/-- A declaration of a record that has passed all checks. -/
structure Blueprint where
  attributes : List Attribute
  visibility : List Token
  name : String
  key : Blueprint.KeyField
  /-- The other fields, in the order of the declaration. -/
  fields : List Blueprint.ValueField
  fingerprint : Option Nat

namespace Blueprint

/-- The fingerprint that an argument of the declaration gives. -/
def argument (a : AttributeItem) : Except BlueprintFault Nat :=
  match a.name?, a.value with
  | some "fingerprint", .integer n => n.toWord.mapError .fingerprintNumber
  | some "fingerprint", .expression => .error .fingerprintNotWhole
  | name, _ => .error (.unknownArgument (name.getD ""))

/-- The fingerprint that some arguments give.  The last one counts, and `found` is the one before.
-/
def arguments (found : Option Nat) : List AttributeItem → Except BlueprintFault (Option Nat)
  | [] => .ok found
  | a :: rest => do arguments (some (← argument a)) rest

/-- The kind of field that a type marks, with the types inside. -/
def marker? (type : WrittenType) : Option (FieldShape × List (List Token)) := do
  let last ← type.last
  let shape ← FieldShape.ofMarker? last.name
  return (shape, last.types.map Tree.allTokens)

/-- Whether an attribute marks the key. -/
def marksKey (a : Attribute) : Bool := a.item.name? == some "key"

/-- Checks a field that is marked as the key; `found` tells whether there was another one before. -/
def keyField (found : Bool) (f : StructField) : Except BlueprintFault KeyField :=
  if found then .error .secondKey
  else if (marker? f.type).isSome then .error .markedKey
  else if f.name ≠ "key" ∧ f.name ∈ Schema.reservedFieldNames then .error (.reserved f.name)
  else .ok ⟨f.attributes.filter fun a => !marksKey a, f.name, Tree.allTokens f.type.trees⟩

/-- Checks any other field. -/
def valueField (f : StructField) : Except BlueprintFault ValueField :=
  if f.name ∈ Schema.reservedFieldNames then .error (.reserved f.name)
  else
    match marker? f.type with
    | none => .error .unmarkedField
    | some (shape, arguments) =>
      if arguments.length = shape.arity then
        .ok ⟨f.attributes, f.name, Tree.allTokens f.type.trees, shape, arguments⟩
      else .error (.argumentCount shape arguments.length)

/-- Sorts fields into the key and the others, up to the first that is at fault; `key` is the key
among the fields before them. -/
def sortFields (key : Option KeyField) :
    List StructField → Except BlueprintFault (Option KeyField × List ValueField)
  | [] => .ok (key, [])
  | f :: rest =>
    if f.attributes.any marksKey then do
      sortFields (some (← keyField key.isSome f)) rest
    else do
      let field ← valueField f
      let (key, fields) ← sortFields key rest
      return (key, field :: fields)

/-- Checks a declaration with its arguments. -/
def ofDeclaration (items : List AttributeItem) (d : StructDeclaration) :
    Except BlueprintFault Blueprint := do
  let fingerprint ← arguments none items
  if d.isGeneric then throw .generic
  match d.body with
  | .named declared =>
    match ← sortFields none declared with
    | (some key, fields) =>
      return ⟨d.attributes, Tree.allTokens d.visibility, d.name, key, fields, fingerprint⟩
    | (none, _) => throw .missingKey
  | _ => throw .unnamedFields

end Blueprint

end VersionedRecords
