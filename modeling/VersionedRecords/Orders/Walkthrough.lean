import VersionedRecords.Notice.Filter
import VersionedRecords.Orders.Book
import VersionedRecords.Orders.Journal
import VersionedRecords.Orders.Total
import VersionedRecords.Schema.Names

/-!
A walk through the order domain: orders are created and edited in a book, the changes are sent to a
replica, several edits are merged into one change for each order, and an order is deleted.  The walk
says what it does and leaves the notices of its work between the lines.
-/

namespace VersionedRecords.Orders

/-- A line of the walk. -/
inductive WalkLine
  | said (text : String)
  | noticed (notice : Notice)

/-- How far the walk has come. -/
structure Walk where
  primary : OrderBook := .empty
  replica : OrderBook := .empty
  stamp : Nat := 1
  /-- The lines so far, the latest first. -/
  lines : List WalkLine := []

/-- A part of the walk; nothing in it goes wrong unless two keys differ. -/
abbrev Walking := StateT Walk (Except IdentityMismatch)

namespace Walking

def say (text : String) : Walking Unit :=
  modify fun w => { w with lines := .said text :: w.lines }

def note (notices : List Notice) : Walking Unit :=
  modify fun w => { w with lines := (notices.map WalkLine.noticed).reverse ++ w.lines }

def freshStamp : Walking Nat := modifyGet fun w => (w.stamp, { w with stamp := w.stamp + 1 })

/-- Commits a draft to the primary book. -/
def commit (d : Draft) : Walking (Option Change) := do
  let stamp ← freshStamp
  let (book, change) := (← get).primary.commit stamp d
  modify fun w => { w with primary := book }
  note (OrderBook.commitNotices d)
  return change

/-- Applies a change to the replica. -/
def replicate (c : Change) : Walking Unit := do
  let stamp ← freshStamp
  let w ← get
  note (w.replica.applyNotices c)
  let book ← w.replica.apply stamp c
  modify fun w => { w with replica := book }

/-- Applies a change to the primary book. -/
def applyHere (c : Change) : Walking Unit := do
  let stamp ← freshStamp
  let w ← get
  note (w.primary.applyNotices c)
  let book ← w.primary.apply stamp c
  modify fun w => { w with primary := book }

/-- Records a change in a journal. -/
def record (j : Journal) (c : Change) : Walking Journal := do
  note (j.recordNotices c)
  j.record c

def edit (id : Nat) : Walking Draft := do return (← get).primary.edit (.int id)

/-- A change and the order it is about, in a few words. -/
def summary (c : Change) : String := c.intent.name ++ " order " ++ c.key.inspect

/-- Whether two versions of an order hold the very same customer. -/
def sharesCustomer (before after : Option Snapshot) : Bool :=
  match before.bind (·.field? "customer"), after.bind (·.field? "customer") with
  | some (.nested (some a)), some (.nested (some b)) => a.isShared b
  | _, _ => false

/-- What an order costs, as far as that can be said. -/
def totalText (order : Option Snapshot) : String :=
  match order.map total with
  | some (.ok n) => toString n
  | some (.error e) => e.message
  | none => ""

/-- Creating and editing an order. -/
def editing : Walking Unit := do
  say "1. Creating and editing an order..."
  say ""
  let grace := (Draft.new customer (.int 7)).edited
    [setScalar "name" (.key (.text "Grace Hopper")),
      setScalar "email" (.key (.text "grace@example.com")),
      setScalar "tier" (.variant "Gold")]
  let draft := (← edit 100).edited [.field "customer" (.set (.nested (some grace)))]
  let draft := putLine draft 1 "KEYBOARD" 1 8900
  let draft := putLine draft 2 "CABLE" 3 450
  let draft := draft.edited [.field "tags" (.insert (.text "priority"))]
  if let some created ← commit draft then
    say ("   ADD delta: " ++ created.inspect)
    say ""
    replicate created
  let before := (← get).primary.get? (.int 100)
  let draft := place (← edit 100) 1700000000000
  let draft := (setLineQuantity draft 2 5).1
  let draft := draft.edited
    [.field "notes" (.putValue (.text "gift") (.key (.text "wrap in blue paper")))]
  if let some updated ← commit draft then
    say ("   UPDATE delta: " ++ updated.inspect)
    say ""
    replicate updated
  let after := (← get).primary.get? (.int 100)
  say ("   Customer shared between versions: "
    ++ if sharesCustomer before after then "true" else "false")
  say ("   Total: " ++ totalText after ++ " cents")
  note [.replicaInSync (← get).replica.size false]

/-- Merging several edits before they are sent. -/
def batching : Walking Unit := do
  say ""
  say "2. Batching edits with a journal..."
  say ""
  let mut journal := Journal.empty
  let draft := (← edit 100).edited [.field "tags" (.insert (.text "express"))]
  if let some c ← commit draft then journal ← record journal c
  let draft := (← edit 100).edited
    [.field "tags" (.remove (.text "priority")), setScalar "status" (.variant "Shipped")]
  if let some c ← commit draft then journal ← record journal c
  if let some c ← commit (putLine (← edit 200) 1 "MOUSE" 1 2500) then journal ← record journal c
  let batch := journal.drain.1
  say ("   3 edits merged into " ++ toString batch.length ++ " deltas")
  for c in batch do
    say ("   " ++ summary c)
    replicate c

/-- Deleting an order and bringing the replica up to date. -/
def deleting : Walking Unit := do
  say ""
  say "3. Cancelling and deleting an order..."
  say ""
  let snapshot := (← get).primary
  if let some order := snapshot.get? (.int 200) then
    note (order.toChangeNotices .delete)
    if let some delete := order.toChange .delete then applyHere delete
  say ("   Primary now holds " ++ toString (← get).primary.size ++ " order(s)")
  note ((← get).primary.diffNotices snapshot)
  for c in (← (← get).primary.diff snapshot) do
    say ("   catch-up: " ++ summary c)
    replicate c
  note [.replicaInSync (← get).replica.size true]

def all : Walking Unit := do
  say "=== Order Editing Demo ==="
  say ""
  editing
  batching
  deleting
  say ""
  say "=== Done! ==="

end Walking

/-- The part of the library that a notice of the walk comes from. -/
def sourceOf : Notice → String
  | .identityMismatch _ => "delta_kit::error"
  | .appliedDelete model _ => "delta_example_orders::generated::" ++ Schema.toSnakeCase model
  | .absorbedIntent .. => "delta_kit::delta_type"
  | .replacedNested .. | .skippedValueless _ | .compared .. => "delta_kit::reconcile"
  | .commitWithoutChanges _ | .committed .. | .applied .. => "delta_example_orders::book"
  | .replicaInSync .. => "orders_demo"
  | .parsedSchema .. | .resolvedModel .. | .generatedCode .. | .wroteFile _ | .wroteAll .. =>
    "delta_codegen"

/-- A line of the walk as it is printed, unless a filter holds it back. -/
def WalkLine.print? (filter : NoticeFilter) : WalkLine → Option String
  | said text => some text
  | noticed n =>
    if filter.shows (sourceOf n) n then some (n.line (sourceOf n)) else none

/-- The walk as it is printed, and its exit code.  Without a filter it does not even begin. -/
def walkthrough : Option NoticeFilter → Nat × List String
  | none => (101, [])
  | some filter =>
    match Walking.all.run {} with
    | .ok (_, w) => (0, w.lines.reverse.filterMap (WalkLine.print? filter))
    | .error _ => (1, [])

end VersionedRecords.Orders
