/-!
Names in schemas: which spellings are allowed, which names are taken, and the file name that goes
with the name of a type.  All of these rules know the letters and digits of ASCII only.
-/

namespace VersionedRecords

namespace Schema

/-- Field names that the generated code keeps for itself.  `key` is free for the key field alone. -/
def reservedFieldNames : List String :=
  ["reference", "last_delta_type", "delta_type", "state", "build", "build_empty", "reset", "init",
   "reconcile", "descriptor", "empty", "builder", "delta_builder", "key", "delta", "to_delta",
   "apply_delta", "is_touched"]

/-- The types that need no declaration. -/
def primitives : List String :=
  ["String", "bool", "char", "u8", "u16", "u32", "u64", "i8", "i16", "i32", "i64", "f32", "f64"]

/-- The primitive types that have no total order and so cannot identify anything. -/
def unorderedPrimitives : List String := ["f32", "f64"]

/-- An identifier: a letter or an underscore, then letters, digits and underscores. -/
def isIdentifier : List Char → Bool
  | c :: rest => (c.isAlpha || c == '_') && rest.all fun c => c.isAlphanum || c == '_'
  | [] => false

/-- The spelling of type names and variants: a capital, then letters and digits. -/
def isPascalCase (name : String) : Bool :=
  match name.toList with
  | c :: rest => c.isUpper && rest.all Char.isAlphanum
  | [] => false

/-- The spelling of field names: a small letter or an underscore, then small letters, digits and
underscores. -/
def isSnakeCase (name : String) : Bool :=
  match name.toList with
  | c :: rest => (c.isLower || c == '_') && rest.all fun c => c.isLower || c.isDigit || c == '_'
  | [] => false

/-- A character of a name, made small; a capital is set off by an underscore. -/
def setOff (c : Char) : List Char := if c.isUpper then ['_', c.toLower] else [c]

/-- A name in small letters, with an underscore before every capital but one at the very front. -/
def toSnakeCase (name : String) : String :=
  match name.toList with
  | c :: rest => String.ofList (c.toLower :: rest.flatMap setOff)
  | [] => ""

end Schema

end VersionedRecords
