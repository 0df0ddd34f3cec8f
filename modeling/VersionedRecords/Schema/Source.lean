import VersionedRecords.Schema.Resolve

/-!
The texts of generated files.  Each text is put together from lines; nothing here asks whether the
schema is in order.
-/

namespace VersionedRecords

namespace Schema

/-- The first line of every generated file. -/
def header : String := "// @generated by delta-codegen. Do not edit by hand."

/-- A text of some lines, each with a line break behind it. -/
def ofLines (lines : List String) : String := "".intercalate (lines.map (· ++ "\n"))

/-- The name of the module that holds a record. -/
def moduleName (m : ModelDeclaration) : String := toSnakeCase m.name

def modelFileName (m : ModelDeclaration) : String := moduleName m ++ ".rs"

/-- A number of 64 bits in hexadecimal, with all its digits. -/
def paddedHex (n : Nat) : String :=
  let digits := Nat.toDigits 16 n
  "0x" ++ String.ofList (List.replicate (16 - digits.length) '0' ++ digits)

/-- The lines that declare a field of a record. -/
def fieldLines (f : ResolvedField) : List String :=
  (if f.role = .key then ["    #[key]"] else [])
    ++ ["    " ++ f.name ++ ": " ++ f.type.written ++ ","]

/-- The arguments of the attribute in front of a record: the fingerprint of its fields. -/
def attributeText (fields : List ResolvedField) : String :=
  "fingerprint = " ++ toString (ResolvedField.fingerprint fields)

/-- The documentation of a record. -/
def modelDocLines (m : ModelDeclaration) (fields : List ResolvedField) : List String :=
  ["/// The `" ++ m.name ++ "` model.",
    "///",
    "/// Schema fingerprint: `" ++ paddedHex (ResolvedField.fingerprint fields) ++ "`."]

/-- The struct of a record. -/
def structLines (m : ModelDeclaration) (fields : List ResolvedField) : List String :=
  ["pub struct " ++ m.name ++ " \x7b"] ++ fields.flatMap fieldLines ++ ["\x7d"]

/-- The struct of a record with its documentation: what the attribute is applied to. -/
def structText (m : ModelDeclaration) (fields : List ResolvedField) : String :=
  ofLines (modelDocLines m fields ++ structLines m fields)

/-- The file of a record. -/
def modelFile (m : ModelDeclaration) (fields : List ResolvedField) : String :=
  ofLines (
    [header, "",
      "#[allow(unused_imports)]",
      "use super::*;",
      "use delta_kit::prelude::*;",
      ""]
    ++ modelDocLines m fields ++ ["#[model(" ++ attributeText fields ++ ")]"]
    ++ structLines m fields)

/-- The lines that declare an enumeration. -/
def enumLines (e : EnumDeclaration) : List String :=
  ["", "/// The `" ++ e.name ++ "` enumeration.",
    "#[derive(Debug, Clone, Copy, PartialEq, Eq, PartialOrd, Ord, Hash, Default)]",
    "pub enum " ++ e.name ++ " \x7b"]
  ++ e.variants.flatMap (fun v =>
    (if e.zero? = some v then ["    #[default]"] else []) ++ ["    " ++ v ++ ","])
  ++ ["\x7d"]

/-- The file of all enumerations. -/
def enumsFile (enums : List EnumDeclaration) : String :=
  ofLines (header :: enums.flatMap enumLines)

/-- The lines that declare a key. -/
def keyLines (k : KeyDeclaration) : List String :=
  ["", "/// The `" ++ k.name ++ "` composite key.",
    "#[derive(Debug, Clone, PartialEq, Eq, PartialOrd, Ord, Hash, Default)]",
    "pub struct " ++ k.name ++ " \x7b"]
  ++ k.fields.map (fun f =>
    "    pub " ++ f.name ++ ": " ++ String.ofList (Text.trim f.type.toList) ++ ",")
  ++ ["\x7d"]

/-- The file of all keys. -/
def keysFile (keys : List KeyDeclaration) : String :=
  ofLines ([header, "", "#[allow(unused_imports)]", "use super::*;"] ++ keys.flatMap keyLines)

/-- The line that brings in a type from elsewhere, under another name if the schema calls it so. -/
def importLine (i : ImportDeclaration) : String :=
  let path := Text.trim i.path.toList
  if String.ofList (Text.lastPathPart path) = i.name then "pub use " ++ String.ofList path ++ ";"
  else "pub use " ++ String.ofList path ++ " as " ++ i.name ++ ";"

/-- The names of the generated modules. -/
def moduleNames (hasEnums hasKeys : Bool) (models : List ModelDeclaration) : List String :=
  (if hasEnums then ["enums"] else []) ++ (if hasKeys then ["keys"] else [])
    ++ models.map moduleName

/-- The file that ties the others together. -/
def indexFile (imports : List ImportDeclaration) (hasEnums hasKeys : Bool)
    (models : List ModelDeclaration) : String :=
  let modules := moduleNames hasEnums hasKeys models
  ofLines (
    [header, ""] ++ modules.map (fun m => "mod " ++ m ++ ";")
    ++ [""] ++ imports.map importLine
    ++ modules.map (fun m => "pub use " ++ m ++ "::*;"))

end Schema

end VersionedRecords
