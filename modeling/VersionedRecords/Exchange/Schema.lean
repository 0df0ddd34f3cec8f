import VersionedRecords.Schema.Write

/-!
The JSON forms of schemas, of their faults and of generated code.
-/

namespace VersionedRecords

def TypeExpression.toJson : TypeExpression → Json
  | name text => .text text
  | set element => .object [("set", element.toJson)]
  | map key value => .object [("map", .list [key.toJson, value.toJson])]

/-- What a text comes to as a type expression. -/
def TypeExpression.parseToJson (text : String) : Json :=
  match TypeExpression.parse? text.toList with
  | none => .null
  | some t => .object [("type", t.toJson), ("name", Json.option .text t.name?)]

def TypeClass.name : TypeClass → String
  | primitive => "Primitive"
  | enumeration => "Enum"
  | key => "Key"
  | imported => "Import"
  | model => "Model"

def ResolvedType.toJson (t : ResolvedType) : Json :=
  .object [("kind", .text t.shape.marker), ("rust_type", .text t.written),
    ("erased", .text t.bareName)]

def SchemaFault.toJson (f : SchemaFault) : Json :=
  .object [("model", Json.option .text f.type), ("field", Json.option .text f.field),
    ("message", .text f.rule.message), ("text", .text f.text)]

def GenerationError.toJson (e : GenerationError) : Json :=
  .object (("error", .text e.kind) :: match e with
    | .file cause => [("message", .text ("IO error: " ++ cause.message))]
    | .unreadable => []
    | .invalid faults => [("message", .text (Schema.faultsMessage faults)),
        ("errors", .list (faults.map SchemaFault.toJson))])

namespace GeneratedCode

/-- What is generated under a name: a file, or the fingerprint of a record. -/
def lookupToJson (g : GeneratedCode) (name : String) : Json :=
  .object [("file", Json.option .text (g.file? name)),
    ("fingerprint", Json.option .nat (g.fingerprint? name))]

def toJson (g : GeneratedCode) (lookup : Option (List String)) : Json :=
  .object ([("output_dir", .text g.directory),
    ("files", .list (g.files.map fun f =>
      .object [("path", .text f.path), ("content", .text f.content)])),
    ("fingerprints", .list (g.fingerprints.map fun p => .list [.text p.1, .nat p.2]))]
    ++ match lookup with
      | some names => [("lookup", .list (names.map g.lookupToJson))]
      | none => [])

/-- Generated code, or why there is none. -/
def outcomeToJson (lookup : Option (List String)) : Except GenerationError GeneratedCode → Json
  | .ok g => g.toJson lookup
  | .error e => e.toJson

end GeneratedCode

namespace Schema

/-- Whether a schema is in order, or else its faults. -/
def checkToJson (s : Schema) : Json :=
  if s.faults = [] then .text "ok"
  else .object [("error", .text "Validation"), ("errors", .list (s.faults.map SchemaFault.toJson))]

/-- What a written type means in a schema. -/
def resolveToJson (s : Schema) (role : FieldRole) (text : String) : Json :=
  let refusal (message : String) : Json := .object [("message", .text message)]
  .object [("class", Json.option (fun c => .text c.name) (s.classOf? text)),
    ("identity", match s.checkIdentity text with
      | .ok () => .text "ok"
      | .error e => refusal e.message),
    ("resolved", match s.resolve role text with
      | .ok t => t.toJson
      | .error e => refusal e.message)]

/-- The file of a record, or why it has none. -/
def modelToJson (s : Schema) (m : ModelDeclaration) : Json :=
  .object ([("file", .text (modelFileName m)),
    ("keys", .list (m.keyFields.map fun f => .text f.name))]
    ++ match s.resolveModel m with
      | .ok fields => [("fingerprint", .nat (ResolvedField.fingerprint fields)),
          ("content", .text (modelFile m fields))]
      | .error u => [("message", .text u.message)])

/-- All texts of a schema, whatever is wrong with it. -/
def renderToJson (s : Schema) (hasEnums hasKeys : Bool) : Json :=
  .object [("models", .list (s.models.map s.modelToJson)),
    ("defaults", .list (s.enums.map fun e => Json.option .text e.zero?)),
    ("enums", .text (enumsFile s.enums)), ("keys", .text (keysFile s.keys)),
    ("mod", .text (indexFile s.imports hasEnums hasKeys s.models))]

end Schema

/-- The files below a directory, with their paths. -/
def Volume.filesToJson (v : Volume) (l : Location) : Json :=
  .list ((v.filesBelow l).map fun f => .list [.text ("/".intercalate f.1), .text f.2])

end VersionedRecords
