import VersionedRecords.Files.Volume
import VersionedRecords.Schema.Generate
import VersionedRecords.Schema.Reader
import VersionedRecords.Toml.Reader

/-!
From a schema file to files of code: reading the text of a schema, generating the code, and writing
the files to a volume.
-/

namespace VersionedRecords

/-- What can go wrong on the way from a schema file to generated code. -/
inductive GenerationError
  | file (cause : FileError)
  /-- The text is no schema. -/
  | unreadable
  | invalid (faults : List SchemaFault)
deriving DecidableEq, Repr

namespace GenerationError

/-- The kind of failure. -/
def kind : GenerationError → String
  | file _ => "Io"
  | unreadable => "Parse"
  | invalid _ => "Validation"

end GenerationError

namespace Schema

/-- The schema that a TOML text describes. -/
def ofToml? (text : String) : Option Schema := Toml.parse? text >>= ofTree? .toml

/-- The code for the schema in a TOML text. -/
def generateFromToml (text : String) : Except GenerationError GeneratedCode :=
  match ofToml? text with
  | none => .error .unreadable
  | some s => match s.generate with
    | .ok g => .ok g
    | .error faults => .error (.invalid faults)

/-- What is said while the code for a TOML text is generated. -/
def tomlNotices (text : String) : List Notice :=
  match ofToml? text with
  | none => []
  | some s => s.readNotice :: s.generateNotices

/-- The text of a schema file, which may be missing. -/
def textOfFile (bytes : Option ByteArray) : Except FileError String :=
  match bytes with
  | none => .error .missing
  | some bytes => match String.fromUTF8? bytes with
    | some text => .ok text
    | none => .error .notText

end Schema

/-- What has come of writing some files: those that were written, and why the rest was not. -/
structure WriteOutcome where
  volume : Volume
  /-- The paths of the written files, in order. -/
  written : List String := []
  failure : Option FileError := none

namespace WriteOutcome

/-- Writes one more file, unless something went wrong before. -/
def step (directory : String) (o : WriteOutcome) (f : GeneratedFile) : WriteOutcome :=
  match o.failure with
  | some _ => o
  | none =>
    let path := Path.join directory f.path
    match o.volume.write path f.content with
    | .ok v => { o with volume := v, written := o.written ++ [path] }
    | .error e => { o with failure := some e }

end WriteOutcome

namespace GeneratedCode

/-- Where the code goes below a root directory. -/
def directoryBelow (g : GeneratedCode) (root : String) : String := Path.join root g.directory

/-- Writes all files below a root directory. -/
def writeTo (g : GeneratedCode) (root : String) (v : Volume) : WriteOutcome :=
  match v.makeDirectories (g.directoryBelow root) with
  | .ok v => g.files.foldl (WriteOutcome.step (g.directoryBelow root)) { volume := v }
  | .error e => { volume := v, failure := some e }

/-- What is said while the files are written. -/
def writeNotices (g : GeneratedCode) (root : String) (o : WriteOutcome) : List Notice :=
  o.written.map Notice.wroteFile
    ++ if o.failure.isNone then [.wroteAll (g.directoryBelow root) g.files.length] else []

end GeneratedCode

end VersionedRecords
