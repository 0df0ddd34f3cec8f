import VersionedRecords.Json.Basic
import VersionedRecords.Schema.Basic

/-!
Reading schemas from trees.  A declaration is an object with its members by name, or a list with
them by place.  Members that nobody asked for are passed over.  Trees come from JSON or from TOML,
and the two differ in small things only.
-/

namespace VersionedRecords.Schema

/-- Where a tree comes from. -/
inductive TreeForm
  | json
  | toml
deriving DecidableEq, Repr

namespace TreeForm

/-- Whether a tree can be a declaration of so many members.  A list from JSON must not be longer. -/
def fits (form : TreeForm) (count : Nat) : Json → Bool
  | .object _ => true
  | .list items => form == .toml || decide (items.length ≤ count)
  | _ => false

/-- A member of a declaration. -/
def member? (name : String) (place : Nat) : Json → Option Json
  | .object ms => ms.lookup name
  | .list items => items[place]?
  | _ => none

/-- The text of a member that has to be there. -/
def text? (name : String) (place : Nat) (j : Json) : Option String :=
  member? name place j >>= Json.text?

/-- The items of a member that may be left out. -/
def items? {α : Type} (read : Json → Option α) (name : String) (place : Nat) (j : Json) :
    Option (List α) :=
  match member? name place j with
  | none => some []
  | some items => do (← items.list?).mapM read

/-- The items of a member that has to be there. -/
def someItems? {α : Type} (read : Json → Option α) (name : String) (place : Nat) (j : Json) :
    Option (List α) := do
  (← (← member? name place j).list?).mapM read

def roleOfName? : String → Option FieldRole
  | "key" => some .key
  | "val" => some .value
  | _ => none

/-- Whether a tree stands for the lack of a value. -/
def isUnit (form : TreeForm) : Json → Bool
  | .null => form == .json
  | .object [] | .list [] => form == .toml
  | _ => false

/-- The role of a field: its name, or an object with the name and nothing in it. -/
def role? (form : TreeForm) : Json → Option FieldRole
  | .text name => roleOfName? name
  | .object [(name, payload)] => if form.isUnit payload then roleOfName? name else none
  | _ => none

def field? (form : TreeForm) (j : Json) : Option FieldDeclaration :=
  if form.fits 3 j then do
    let name ← text? "name" 0 j
    let type ← text? "type" 1 j
    match member? "modifier" 2 j with
    | none => return ⟨name, type, .value⟩
    | some r => return ⟨name, type, ← form.role? r⟩
  else none

def import? (form : TreeForm) (j : Json) : Option ImportDeclaration :=
  if form.fits 2 j then do return ⟨← text? "name" 0 j, ← text? "path" 1 j⟩ else none

/-- The named zero value of an enumeration.  An object may leave it out, a list may not. -/
def zero? (j : Json) : Option (Option String) :=
  match j, member? "default" 2 j with
  | .object _, none => some none
  | _, none => none
  | _, some d => d.option? Json.text?

def enum? (form : TreeForm) (j : Json) : Option EnumDeclaration :=
  if form.fits 3 j then do
    return ⟨← text? "name" 0 j, ← someItems? Json.text? "variants" 1 j, ← zero? j⟩
  else none

def key? (form : TreeForm) (j : Json) : Option KeyDeclaration :=
  if form.fits 2 j then do
    return ⟨← text? "name" 0 j, ← someItems? form.field? "fields" 1 j⟩
  else none

def model? (form : TreeForm) (j : Json) : Option ModelDeclaration :=
  if form.fits 2 j then do
    return ⟨← text? "name" 0 j, ← someItems? form.field? "fields" 1 j⟩
  else none

/-- The output directory, in a declaration of its own. -/
def output? (form : TreeForm) (j : Json) : Option String :=
  if form.fits 1 j then text? "output" 0 j else none

end TreeForm

open TreeForm in
/-- The schema that a tree describes. -/
def ofTree? (form : TreeForm) (j : Json) : Option Schema :=
  if form.fits 5 j then do
    return {
      output := ← member? "config" 0 j >>= form.output?
      imports := ← items? form.import? "import" 1 j
      enums := ← items? form.enum? "enum" 2 j
      keys := ← items? form.key? "key" 3 j
      models := ← items? form.model? "model" 4 j }
  else none

end VersionedRecords.Schema
