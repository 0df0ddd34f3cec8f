import VersionedRecords.Json.Basic
import VersionedRecords.Element.Entry
import VersionedRecords.Layout

/-!
The JSON forms of keys, plain values and the changes of sets and maps.

Numbers stand for themselves, floating-point numbers for the sixteen hexadecimal digits of their
bits, the key of a line for the list of its two parts.  A change of an element is the list of its
intent, its key and, for maps, its value.  A text may also be given as a piece and the number of its
repetitions.
-/

namespace VersionedRecords

namespace Intent

def toJson (i : Intent) : Json := .text i.name

def ofJson? (j : Json) : Option Intent := j.text? >>= ofName?

end Intent

/-- Reads a text. -/
def textOfJson? : Json → Option String
  | .text s => some s
  | j => do
    let piece ← j.member? "repeat" >>= Json.text?
    let times ← j.member? "times" >>= Json.nat?
    return String.join (List.replicate times piece)

namespace Key

def toJson : Key → Json
  | .int n => .integer n
  | .text s => .text s
  | .char c => .text (String.singleton c)
  | .bool b => .bool b
  | .line o l => .list [.nat o, .nat l]

def ofJson? : KeyType → Json → Option Key
  | .text, j => (textOfJson? j).map Key.text
  | .integer _, j => j.integer?.map Key.int
  | .char, .text s => match s.toList with
    | [c] => some (.char c)
    | _ => none
  | .bool, .bool b => some (.bool b)
  | .line, .list [o, l] => do return .line (← o.nat?) (← l.nat?)
  | _, _ => none

end Key

namespace Datum

/-- The sixteen hexadecimal digits of a word. -/
def hexDigits16 (w : UInt64) : String :=
  let ds := Nat.toDigits 16 w.toNat
  String.ofList (List.replicate (16 - ds.length) '0' ++ ds)

/-- The word with the given hexadecimal digits in lower case. -/
def ofHexDigits (ds : List Char) : UInt64 :=
  (ds.foldl (fun (n : Nat) (c : Char) =>
    n * 16 + (if c.isDigit then c.toNat - '0'.toNat else c.toNat - 'a'.toNat + 10)) 0).toUInt64

def toJson : Datum → Json
  | .key k => k.toJson
  | .float x => .text (hexDigits16 x.bits)
  | .bytes bs => .list (bs.map fun b => .nat b.toNat)
  | .variant name => .text name
  | .timestamp ms => .nat ms

def ofJson? : DatumType → Json → Option Datum
  | .key t, j => (Key.ofJson? t j).map Datum.key
  | .float, .text s => some (.float ⟨ofHexDigits s.toList⟩)
  | .bytes, .list items => (items.mapM Json.nat?).map fun ns => .bytes (ns.map Nat.toUInt8)
  | .enumeration _ _, .text s => some (.variant s)
  | .timestamp, j => j.nat?.map Datum.timestamp
  | _, _ => none

end Datum

namespace MemberChange

def toJson (c : MemberChange) : Json := .list [c.intent.toJson, c.key.toJson]

def ofJson? (t : KeyType) : Json → Option MemberChange
  | .list [i, k] => do return ⟨← Intent.ofJson? i, ← Key.ofJson? t k⟩
  | _ => none

end MemberChange

namespace EntryChange

def toJson (c : EntryChange) : Json :=
  .list [c.intent.toJson, c.key.toJson, Json.option Datum.toJson c.value]

def ofJson? (t : KeyType) (v : DatumType) : Json → Option EntryChange
  | .list [i, k, value] => do
    return ⟨← Intent.ofJson? i, ← Key.ofJson? t k, ← Json.option? (Datum.ofJson? v) value⟩
  | _ => none

end EntryChange

namespace KeySet

def toJson (s : List Key) : Json := .list (s.map Key.toJson)

/-- Reads a set, its members in any order. -/
def ofJson? (t : KeyType) (j : Json) : Option (List Key) := do
  return ofList (← (← j.list?).mapM (Key.ofJson? t))

end KeySet

namespace Keyed

def toJson {α : Type} (f : α → Json) (m : Keyed α) : Json :=
  .list (m.map fun e => .list [e.1.toJson, f e.2])

/-- Reads a map of plain values, its entries in any order; the last of several for one key counts.
-/
def ofJson? (t : KeyType) (v : DatumType) (j : Json) : Option (Keyed Datum) := do
  let entries ← (← j.list?).mapM fun
    | .list [k, value] => do return (← Key.ofJson? t k, ← Datum.ofJson? v value)
    | _ => none
  return ofList entries

end Keyed

end VersionedRecords
