import VersionedRecords.Record.Accumulator

/-!
Drafts: records being edited.

A draft is begun over a snapshot, its reference, or from nothing.  Each field of a draft over a
reference is deferred, that is, it stands for the value of the reference, until it is first edited;
from then on it is touched and has a working copy of its own.  A draft without a reference is
touched throughout.  Building turns a draft into a snapshot again; what was never touched is shared
with the reference, and if nothing was, the result is the reference itself.
-/

namespace VersionedRecords

/-- The working copy of one field; `δ` is the type of drafts of sub-records. -/
inductive Working (δ : Type)
  | scalar (value : Datum)
  | attached (value : Option Datum)
  | nested (draft : Option δ)
  | keySet (members : List Key)
  | valueMap (entries : List (Key × Datum))
  | modelMap (entries : List (Key × δ))

/-- The working copy of a field in which nothing has been stored. -/
def Working.zero {δ : Type} : FieldKind → Working δ
  | .scalar t => .scalar t.zero
  | .attached _ => .attached none
  | .nested _ => .nested none
  | .keySet _ => .keySet []
  | .valueMap _ _ => .valueMap []
  | .modelMap _ _ => .modelMap []

/-- One field of a draft. -/
inductive Slot (σ δ : Type)
  /-- Stands for a value of the reference. -/
  | deferred (value : Value σ)
  /-- Has been edited, or could have been. -/
  | touched (working : Working δ)

/-- A record being edited. -/
structure Draft where
  layout : Layout
  key : Key
  reference : Option Snapshot
  /-- The intent of the last change that was applied. -/
  lastIntent : Option Intent
  /-- The fields, in the order of the layout. -/
  slots : List (Slot Snapshot Draft)

namespace Draft

def identity (d : Draft) : Identity := ⟨d.layout, d.key⟩

/-- Touched slots without content for every field of a layout. -/
def zeroSlots (l : Layout) : List (Slot Snapshot Draft) := l.kinds.map fun k => .touched (.zero k)

/-- A draft begun from nothing. -/
def new (layout : Layout) (key : Key) : Draft := ⟨layout, key, none, none, zeroSlots layout⟩

/-- Whether the record is deleted in this draft. -/
def isDeleted (d : Draft) : Bool := d.lastIntent == some .delete

/-- Empties every field and forgets the last change.  The reference stays. -/
def reset (d : Draft) : Draft := { d with lastIntent := none, slots := zeroSlots d.layout }

def setLastIntent (d : Draft) (i : Option Intent) : Draft := { d with lastIntent := i }

end Draft

/-- A draft over a snapshot. -/
def Snapshot.edit (s : Snapshot) : Draft :=
  ⟨s.layout, s.key, some s, none, s.fields.map .deferred⟩

/-- A draft of the same record, begun from nothing. -/
def Snapshot.skeleton (s : Snapshot) : Draft := .new s.layout s.key

namespace Value

/-- The working copy with which editing begins. -/
def materialise : Value Snapshot → Working Draft
  | .scalar v => .scalar v
  | .attached v => .attached v
  | .nested s => .nested (s.map Snapshot.edit)
  | .keySet _ ms => .keySet ms
  | .valueMap _ es => .valueMap es
  | .modelMap _ es => .modelMap (es.map fun e => (e.1, e.2.edit))

end Value

namespace Slot

def isTouched : Slot Snapshot Draft → Bool
  | .deferred _ => false
  | .touched _ => true

/-- The working copy, made from the deferred value if there is none yet. -/
def working : Slot Snapshot Draft → Working Draft
  | .deferred v => v.materialise
  | .touched w => w

/-- The slot once its field may be edited. -/
def touch (s : Slot Snapshot Draft) : Slot Snapshot Draft := .touched s.working

end Slot

namespace Draft

/-- Whether any field has been touched. -/
def isTouched (d : Draft) : Bool := d.slots.any Slot.isTouched

mutual

/-- Turns a draft into a snapshot; a deleted record has none.  Parts put together on the way get
their origin from `stamp`, which should differ from one act of building to the next, and from
`path`, the place below the record. -/
def buildAt (stamp : Nat) (path : List Nat) : Draft → Option Snapshot
  | ⟨layout, key, reference, lastIntent, slots⟩ =>
    if lastIntent = some .delete then none
    else match slots.any Slot.isTouched, reference with
      | false, some s => some s
      | _, _ => some ⟨layout, key, ⟨stamp, path⟩, freezeSlots stamp path 0 slots⟩

def freezeSlots (stamp : Nat) (path : List Nat) : Nat → List (Slot Snapshot Draft) →
    List (Value Snapshot)
  | _, [] => []
  | i, s :: rest => freezeSlot stamp (i :: path) s :: freezeSlots stamp path (i + 1) rest

def freezeSlot (stamp : Nat) (path : List Nat) : Slot Snapshot Draft → Value Snapshot
  | .deferred v => v
  | .touched w => freeze stamp path w

/-- The immutable value of a working copy.  Entries whose record is deleted drop out of maps. -/
def freeze (stamp : Nat) (path : List Nat) : Working Draft → Value Snapshot
  | .scalar v => .scalar v
  | .attached v => .attached v
  | .nested none => .nested none
  | .nested (some d) => .nested (buildAt stamp path d)
  | .keySet ms => .keySet ⟨stamp, path⟩ ms
  | .valueMap es => .valueMap ⟨stamp, path⟩ es
  | .modelMap es => .modelMap ⟨stamp, path⟩ (freezeEntries stamp path 0 es)

def freezeEntries (stamp : Nat) (path : List Nat) : Nat → List (Key × Draft) →
    List (Key × Snapshot)
  | _, [] => []
  | i, (k, d) :: rest =>
    match buildAt stamp (i :: path) d with
    | some s => (k, s) :: freezeEntries stamp path (i + 1) rest
    | none => freezeEntries stamp path (i + 1) rest

end

/-- The snapshot of a draft; a deleted record has none. -/
def build (stamp : Nat) (d : Draft) : Option Snapshot := buildAt stamp [] d

/-- The snapshot of the record with every field at its zero value. -/
def buildEmpty (stamp : Nat) (d : Draft) : Snapshot := .empty d.layout d.key ⟨stamp, []⟩

/-- Whether building gives back the reference itself. -/
def buildsReference (d : Draft) : Bool := !d.isDeleted && !d.isTouched && d.reference.isSome

end Draft

mutual

/-- A draft over a snapshot with every field touched, and so for all sub-records. -/
def Snapshot.editThroughout : Snapshot → Draft
  | ⟨layout, key, origin, fields⟩ =>
    ⟨layout, key, some ⟨layout, key, origin, fields⟩, none, Draft.openFields fields⟩

def Draft.openFields : List (Value Snapshot) → List (Slot Snapshot Draft)
  | [] => []
  | v :: rest => .touched (Draft.openValue v) :: Draft.openFields rest

def Draft.openValue : Value Snapshot → Working Draft
  | .scalar v => .scalar v
  | .attached v => .attached v
  | .nested none => .nested none
  | .nested (some s) => .nested (some s.editThroughout)
  | .keySet _ ms => .keySet ms
  | .valueMap _ es => .valueMap es
  | .modelMap _ es => .modelMap (Draft.openEntries es)

def Draft.openEntries : List (Key × Snapshot) → List (Key × Draft)
  | [] => []
  | (k, s) :: rest => (k, s.editThroughout) :: Draft.openEntries rest

end

namespace Draft

mutual

/-- Touches every field, and every field of the drafts below. -/
def materialise : Draft → Draft
  | ⟨layout, key, reference, lastIntent, slots⟩ =>
    ⟨layout, key, reference, lastIntent, materialiseSlots slots⟩

def materialiseSlots : List (Slot Snapshot Draft) → List (Slot Snapshot Draft)
  | [] => []
  | .deferred v :: rest => .touched (openValue v) :: materialiseSlots rest
  | .touched w :: rest => .touched (materialiseWorking w) :: materialiseSlots rest

def materialiseWorking : Working Draft → Working Draft
  | .nested none => .nested none
  | .nested (some d) => .nested (some (materialise d))
  | .modelMap es => .modelMap (materialiseEntries es)
  | w => w

def materialiseEntries : List (Key × Draft) → List (Key × Draft)
  | [] => []
  | (k, d) :: rest => (k, materialise d) :: materialiseEntries rest

end

end Draft

namespace Slot

/-- The slot with its field, and everything below, touched. -/
def materialise : Slot Snapshot Draft → Slot Snapshot Draft
  | .deferred v => .touched (Draft.openValue v)
  | .touched w => .touched (Draft.materialiseWorking w)

end Slot

end VersionedRecords
