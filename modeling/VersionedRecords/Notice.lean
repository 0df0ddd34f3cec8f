import VersionedRecords.Identity
import VersionedRecords.Intent

/-!
Notices: what the library has to say about its own work.  A notice is recorded as its cause; the
level, the message and the named details are derived from it.
-/

namespace VersionedRecords

/-- How much attention a notice asks for. -/
inductive NoticeLevel
  | warn
  | info
  | debug
  | trace
deriving DecidableEq, Repr

namespace NoticeLevel

def name : NoticeLevel → String
  | warn => "WARN"
  | info => "INFO"
  | debug => "DEBUG"
  | trace => "TRACE"

/-- The levels from the least to the most talkative. -/
def rank : NoticeLevel → Nat
  | warn => 2
  | info => 3
  | debug => 4
  | trace => 5

end NoticeLevel

/-- A named detail of a notice. -/
inductive NoticeDetail
  | number (value : Int)
  /-- A text that is shown as it is. -/
  | plain (value : String)
  /-- A text that is quoted where notices are written out as lines. -/
  | quoted (value : String)
deriving DecidableEq, Repr

/-- The kinds of collection whose comparison is counted. -/
inductive ComparedCollection
  | keySet
  | valueMap
  | modelMap
  /-- A map to records some of which are still being edited. -/
  | draftMap
deriving DecidableEq, Repr

/-- A notice, by its cause. -/
inductive Notice
  | identityMismatch (cause : IdentityMismatch)
  /-- A deletion was applied to the draft of a record. -/
  | appliedDelete (model : String) (key : Key)
  /-- A sub-record was replaced by one of another identity; `draft` tells whether the new one was
  still being edited. -/
  | replacedNested (draft : Bool) (old new : Key)
  /-- A change to a map entry carried no value and was passed over. -/
  | skippedValueless (key : Key)
  | absorbedIntent (before incoming after : Intent)
  | compared (what : ComparedCollection) (count : Nat)
  | commitWithoutChanges (order : Key)
  | committed (order : Key) (intent : Intent)
  | applied (order : Key) (intent : Intent)
  | replicaInSync (orders : Nat) (afterDeletion : Bool)
  | parsedSchema (models enums keys imports : Nat)
  | resolvedModel (model : String) (fingerprint : Nat)
  | generatedCode (files : Nat) (output : String)
  | wroteFile (path : String)
  | wroteAll (directory : String) (files : Nat)
deriving DecidableEq, Repr

namespace Notice

def level : Notice → NoticeLevel
  | identityMismatch _ => .warn
  | committed .. | replicaInSync .. | parsedSchema .. | generatedCode .. | wroteAll .. => .info
  | absorbedIntent .. | compared .. => .trace
  | _ => .debug

def message : Notice → String
  | identityMismatch _ => "identity mismatch"
  | appliedDelete .. => "applied delete"
  | replacedNested false _ _ => "nested model key changed, reporting replacement as add"
  | replacedNested true _ _ => "nested builder key changed, reporting replacement as add"
  | skippedValueless _ => "skipping value-less map entry delta"
  | absorbedIntent .. => "absorbed delta type"
  | compared .keySet _ => "reconciled key set"
  | compared .valueMap _ => "reconciled key/value map"
  | compared .modelMap _ => "reconciled key/model map"
  | compared .draftMap _ => "reconciled key/builder map"
  | commitWithoutChanges _ => "commit without changes"
  | committed .. => "committed"
  | applied .. => "applied"
  | replicaInSync _ false => "replica in sync"
  | replicaInSync _ true => "replica in sync after deletion"
  | parsedSchema .. => "parsed schema"
  | resolvedModel .. => "resolved model"
  | generatedCode .. => "generated code"
  | wroteFile _ => "wrote generated file"
  | wroteAll .. => "generated code written"

/-- The detail that names the key of an order. -/
def orderDetail : Key → NoticeDetail
  | .int n => .number n
  | k => .plain k.inspect

def details : Notice → List (String × NoticeDetail)
  | identityMismatch e =>
    [("operation", .quoted e.operation.name), ("expected", .plain e.expected.inspect),
      ("found", .plain e.found.inspect)]
  | appliedDelete model key => [("model", .quoted model), ("key", .plain key.inspect)]
  | replacedNested _ old new => [("old", .plain old.inspect), ("new", .plain new.inspect)]
  | skippedValueless key => [("key", .plain key.inspect)]
  | absorbedIntent before incoming after =>
    [("before", .plain before.name), ("incoming", .plain incoming.name),
      ("after", .plain after.name)]
  | compared _ count => [("count", .number count)]
  | commitWithoutChanges order => [("order", orderDetail order)]
  | committed order intent | applied order intent =>
    [("order", orderDetail order), ("delta_type", .plain intent.name)]
  | replicaInSync orders _ => [("orders", .number orders)]
  | parsedSchema models enums keys imports =>
    [("models", .number models), ("enums", .number enums), ("keys", .number keys),
      ("imports", .number imports)]
  | resolvedModel model fingerprint =>
    [("model", .plain model), ("fingerprint", .number fingerprint)]
  | generatedCode files output => [("files", .number files), ("output", .plain output)]
  | wroteFile path => [("path", .plain path)]
  | wroteAll directory files => [("dir", .plain directory), ("files", .number files)]

end Notice

end VersionedRecords
