import VersionedRecords.Orders.Edit
import VersionedRecords.Record.Notices
import VersionedRecords.Record.Inspect

/-!
Order books: stores of orders that change only through drafts and changes, so that a replica can be
kept in step by sending it the changes.
-/

namespace VersionedRecords.Orders

/-- A store of orders, each under its own key. -/
structure OrderBook where
  orders : Keyed Snapshot

namespace OrderBook

def empty : OrderBook := ⟨[]⟩

def get? (b : OrderBook) (id : Key) : Option Snapshot := Keyed.find? id b.orders

def size (b : OrderBook) : Nat := b.orders.length

def isEmpty (b : OrderBook) : Bool := b.orders.isEmpty

/-- The orders, in ascending order of their keys. -/
def toList (b : OrderBook) : List Snapshot := b.orders.map Prod.snd

/-- Whether two books hold the same orders. -/
def same (b c : OrderBook) : Bool := Snapshot.sameEntries b.orders c.orders

/-- A draft over the stored order, or one begun from nothing if there is none. -/
def edit (b : OrderBook) (id : Key) : Draft :=
  match b.get? id with
  | some s => s.edit
  | none => .new order id

/-- The book with what was built for an order: nothing means that the order is gone. -/
def store (b : OrderBook) (id : Key) : Option Snapshot → OrderBook
  | some s => ⟨Keyed.insert id s b.orders⟩
  | none => ⟨Keyed.erase id b.orders⟩

/-- Stores the state of a draft and tells the change that describes what the draft did, if it did
anything. -/
def commit (stamp : Nat) (b : OrderBook) (d : Draft) : OrderBook × Option Change :=
  match d.diff with
  | none => (b, none)
  | some c => (b.store d.key (d.build stamp), some c)

/-- Applies a change made elsewhere. -/
def apply (stamp : Nat) (b : OrderBook) (c : Change) : Except IdentityMismatch OrderBook := do
  let d ← (b.edit c.key).apply c
  return b.store c.key (d.build stamp)

/-- The change of one order of this book, given what it was. -/
def diffEntry (base : OrderBook) (e : Key × Snapshot) : Except IdentityMismatch (Option Change) :=
  match base.get? e.1 with
  | some theirs => e.2.edit.diffAgainst .update theirs
  | none => .ok (e.2.toChange .add)

/-- The changes that turn `base` into this book, one for each order that differs: first those of the
orders of this book, then those of the orders that only `base` has. -/
def diff (b base : OrderBook) : Except IdentityMismatch (List Change) := do
  let here ← b.orders.mapM (diffEntry base)
  let gone := base.orders.filter fun e => !Keyed.has e.1 b.orders
  return here.filterMap id ++ gone.filterMap fun e => e.2.toChange .delete

/-- The notices of `commit`. -/
def commitNotices (d : Draft) : List Notice :=
  d.ownDiffNotices ++
    match d.diff with
    | none => [.commitWithoutChanges d.key]
    | some c => [.committed d.key c.intent]

/-- The notices of `apply`. -/
def applyNotices (b : OrderBook) (c : Change) : List Notice :=
  let d := b.edit c.key
  d.applyNotices c ++
    match d.apply c with
    | .ok _ => [.applied c.key c.intent]
    | .error _ => []

/-- The notices of `diff`. -/
def diffNotices (b base : OrderBook) : List Notice :=
  (b.orders.flatMap fun e =>
    match base.get? e.1 with
    | some theirs => e.2.edit.diffAgainstNotices .update theirs
    | none => e.2.toChangeNotices .add)
  ++ (base.orders.filter fun e => !Keyed.has e.1 b.orders).flatMap fun e =>
    e.2.toChangeNotices .delete

def inspect (b : OrderBook) : String :=
  Text.inspectParts "OrderBook"
    [("orders", Text.inspectMap (b.orders.map fun e => (e.1.inspect, e.2.inspect)))]

end OrderBook

end VersionedRecords.Orders
