/-!
JSON values and their text.
-/

namespace VersionedRecords

/-- A JSON value.  The members of an object are kept in the order in which they were written,
repeated names included. -/
inductive Json
  | null
  | bool (value : Bool)
  /-- A whole number written as one. -/
  | integer (value : Int)
  /-- A number with a fraction or an exponent, a negative zero, or a whole number outside the range
  of 64-bit words; it is kept as it was written. -/
  | inexact (text : List Char)
  | text (value : String)
  | list (items : List Json)
  | object (members : List (String × Json))

namespace Json

/-- The first member of an object with a given name. -/
def member? (name : String) : Json → Option Json
  | object ms => ms.lookup name
  | _ => none

def nat (n : Nat) : Json := integer n

def option {α : Type} (f : α → Json) : Option α → Json
  | none => null
  | some a => f a

/-- The content of a string. -/
def text? : Json → Option String
  | text s => some s
  | _ => none

def integer? : Json → Option Int
  | integer n => some n
  | _ => none

def nat? : Json → Option Nat
  | integer (.ofNat n) => some n
  | _ => none

def bool? : Json → Option Bool
  | bool b => some b
  | _ => none

def list? : Json → Option (List Json)
  | list items => some items
  | _ => none

/-- Reads a value that may be `null`. -/
def option? {α : Type} (f : Json → Option α) : Json → Option (Option α)
  | null => some none
  | j => (f j).map some

mutual

/-- How many values a value consists of, itself included. -/
def size : Json → Nat
  | list items => sizeItems items + 1
  | object members => sizeMembers members + 1
  | _ => 1

def sizeItems : List Json → Nat
  | [] => 0
  | j :: rest => size j + sizeItems rest

def sizeMembers : List (String × Json) → Nat
  | [] => 0
  | (_, j) :: rest => size j + sizeMembers rest

end

/-- The characters of a control character's escape. -/
def escapeControl (c : Char) : List Char :=
  let ds := Nat.toDigits 16 c.toNat
  ['\\', 'u'] ++ List.replicate (4 - ds.length) '0' ++ ds

/-- A character as it stands in a JSON string: only the quotation mark, the backslash and the
control characters are escaped. -/
def escape (c : Char) : List Char :=
  if c = '"' then ['\\', '"']
  else if c = '\\' then ['\\', '\\']
  else if c = '\x08' then ['\\', 'b']
  else if c = '\t' then ['\\', 't']
  else if c = '\n' then ['\\', 'n']
  else if c = '\x0c' then ['\\', 'f']
  else if c = '\r' then ['\\', 'r']
  else if c.toNat < 0x20 then escapeControl c
  else [c]

def renderText (s : String) : String :=
  String.ofList ('"' :: s.toList.flatMap escape ++ ['"'])

mutual

/-- The text of a value, with no blanks. -/
def render : Json → String
  | null => "null"
  | bool b => if b then "true" else "false"
  | integer n => toString n
  | inexact cs => String.ofList cs
  | text s => renderText s
  | list items => "[" ++ ",".intercalate (renderItems items) ++ "]"
  | object members => "\x7b" ++ ",".intercalate (renderMembers members) ++ "\x7d"

def renderItems : List Json → List String
  | [] => []
  | j :: rest => render j :: renderItems rest

def renderMembers : List (String × Json) → List String
  | [] => []
  | (name, j) :: rest => (renderText name ++ ":" ++ render j) :: renderMembers rest

end

end Json

end VersionedRecords
