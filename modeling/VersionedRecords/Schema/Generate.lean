import VersionedRecords.Notice
import VersionedRecords.Schema.Check
import VersionedRecords.Schema.Source

/-!
Generating code: a schema without faults becomes a list of files, one for each record and the common
ones, and a list of fingerprints.
-/

namespace VersionedRecords

/-- A generated file; the path is relative to the output directory. -/
structure GeneratedFile where
  path : String
  content : String
deriving DecidableEq, Repr

/-- All that is generated from one schema. -/
structure GeneratedCode where
  directory : String
  files : List GeneratedFile
  /-- The fingerprint of every record, in the order of the declarations. -/
  fingerprints : List (String × Nat)
deriving DecidableEq, Repr

namespace GeneratedCode

/-- The content of the file at a path. -/
def file? (g : GeneratedCode) (path : String) : Option String :=
  (g.files.find? fun f => f.path == path).map GeneratedFile.content

def fingerprint? (g : GeneratedCode) (model : String) : Option Nat := g.fingerprints.lookup model

end GeneratedCode

namespace Schema

/-- Resolves all records, up to the first that has a field without a meaning. -/
def resolveModels (s : Schema) :
    Except (List SchemaFault) (List (ModelDeclaration × List ResolvedField)) :=
  s.models.mapM fun m =>
    match s.resolveModel m with
    | .ok fields => .ok (m, fields)
    | .error u => .error [⟨.unresolved u, some m.name, none⟩]

/-- The files that go with resolved records. -/
def filesOf (s : Schema) (models : List (ModelDeclaration × List ResolvedField)) :
    List GeneratedFile :=
  let hasEnums := !s.enums.isEmpty
  let hasKeys := !s.keys.isEmpty
  models.map (fun r => ⟨modelFileName r.1, modelFile r.1 r.2⟩)
    ++ (if hasEnums then [⟨"enums.rs", enumsFile s.enums⟩] else [])
    ++ (if hasKeys then [⟨"keys.rs", keysFile s.keys⟩] else [])
    ++ [⟨"mod.rs", indexFile s.imports hasEnums hasKeys s.models⟩]

/-- The code for a schema, or all of its faults. -/
def generate (s : Schema) : Except (List SchemaFault) GeneratedCode :=
  if s.faults = [] then do
    let models ← s.resolveModels
    return ⟨s.output, s.filesOf models,
      models.map fun r => (r.1.name, ResolvedField.fingerprint r.2)⟩
  else .error s.faults

/-- The message for a schema with faults. -/
def faultsMessage (faults : List SchemaFault) : String :=
  "schema validation failed:\n" ++ "\n".intercalate (faults.map fun f => "  - " ++ f.text)

/-- What is said when a schema has been read. -/
def readNotice (s : Schema) : Notice :=
  .parsedSchema s.models.length s.enums.length s.keys.length s.imports.length

/-- What is said while code is generated. -/
def generateNotices (s : Schema) : List Notice :=
  match s.generate with
  | .ok g =>
    g.fingerprints.map (fun p => .resolvedModel p.1 p.2)
      ++ [.generatedCode g.files.length g.directory]
  | .error _ => []

end Schema

end VersionedRecords
