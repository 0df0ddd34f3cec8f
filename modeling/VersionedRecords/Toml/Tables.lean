import VersionedRecords.Json.Basic

/-!
The tables of a TOML document while it is being read.  A table remembers how it came to be, because
this decides in which ways it may still grow.
-/

namespace VersionedRecords.Toml

/-- How a table came to be. -/
inductive TableOrigin
  /-- It has a header of its own, or it is the whole document. -/
  | stated
  /-- It stands in the path of the header of another table. -/
  | implied
  /-- It was made by a key with dots. -/
  | dotted
deriving DecidableEq, Repr

/-- What stands under a key. -/
inductive Item
  | value (value : Json)
  | table (origin : TableOrigin) (members : List (String × Item))
  /-- Tables under one header each; the last of them is still open. -/
  | tables (items : List (List (String × Item)))

abbrev Members := List (String × Item)

namespace Members

/-- Puts something else under a key that is there already. -/
def replace (members : Members) (key : String) (item : Item) : Members :=
  members.map fun m => if m.1 == key then (key, item) else m

/-- Stores a value under a key with dots.  The tables on the way must have come to be in this manner
too, or come to be now. -/
def store (last : String) (value : Json) : List String → Members → Option Members
  | [], members =>
    if (members.lookup last).isSome then none else some (members ++ [(last, .value value)])
  | key :: path, members =>
    match members.lookup key with
    | none => do return members ++ [(key, .table .dotted (← store last value path []))]
    | some (.value _) => none
    | some (.table .stated _) => none
    | some (.table .dotted sub) => do
      return members.replace key (.table .dotted (← store last value path sub))
    | some (.table .implied sub) =>
      if path.isEmpty then none
      else do return members.replace key (.table .implied (← store last value path sub))
    | some (.tables items) =>
      if path.isEmpty then none
      else do
        let sub ← store last value path (← items.getLast?)
        return members.replace key (.tables (items.dropLast ++ [sub]))

/-- Works on the members of the table to which the path of a header leads.  Tables on the way that
are not there yet come to be. -/
def within (f : Members → Option Members) : List String → Members → Option Members
  | [], members => f members
  | key :: path, members =>
    match members.lookup key with
    | none => do return members ++ [(key, .table .implied (← within f path []))]
    | some (.value _) => none
    | some (.table origin sub) => do
      return members.replace key (.table origin (← within f path sub))
    | some (.tables items) => do
      let sub ← within f path (← items.getLast?)
      return members.replace key (.tables (items.dropLast ++ [sub]))

/-- Opens the table of a header.  It may have been implied before, but not stated. -/
def openTable (key : String) (members : Members) : Option Members :=
  match members.lookup key with
  | none => some (members ++ [(key, .table .stated [])])
  | some (.table .implied sub) => some (members.replace key (.table .stated sub))
  | some _ => none

/-- Opens one more table of a header that may come again. -/
def openNext (key : String) (members : Members) : Option Members :=
  match members.lookup key with
  | none => some (members ++ [(key, .tables [[]])])
  | some (.tables items) => some (members.replace key (.tables (items ++ [[]])))
  | some _ => none

end Members

mutual

def Item.toJson : Item → Json
  | .value j => j
  | .table _ members => .object (Item.membersToJson members)
  | .tables items => .list (Item.tablesToJson items)

def Item.membersToJson : List (String × Item) → List (String × Json)
  | [] => []
  | (key, item) :: rest => (key, item.toJson) :: Item.membersToJson rest

def Item.tablesToJson : List (List (String × Item)) → List Json
  | [] => []
  | members :: rest => .object (Item.membersToJson members) :: Item.tablesToJson rest

end

end VersionedRecords.Toml
