import VersionedRecords.Exchange.Datum
import VersionedRecords.Json.Reader

/-!
Changes of elements as JSON documents: objects with the members `delta_type`, `key` and, for entries
of maps, `value`.  Keys are texts and values are whole numbers of 64 bits.

A reader passes over members it does not know, takes a missing value for an absent one, and accepts
a list with all members in order in place of the object.  It refuses repeated members.
-/

namespace VersionedRecords

/-- The value of a member that is there at most once. -/
def Json.writtenMember? (members : List (String × String)) (name : String) :
    Option (Option Json) :=
  match members.filter fun m => m.1 == name with
  | [] => some none
  | [m] => (parse? m.2).map some
  | _ => none

/-- The values of the named members of a document.  A document that is a list has all of them. -/
def Json.namedParts? (names : List String) (document : String) : Option (List (Option Json)) :=
  match writtenMembers? document with
  | some members => names.mapM (writtenMember? members)
  | none => do
    let items ← (← parse? document).list?
    if items.length = names.length then some (items.map some) else none

/-- The intent in a document: its name, or an object with the name and nothing in it. -/
def Intent.ofDocument? : Json → Option Intent
  | .text name => ofName? name
  | .object [(name, .null)] => ofName? name
  | _ => none

/-- Whether a number can be a value. -/
def isWord (n : Int) : Bool := -0x8000000000000000 ≤ n && n < 0x8000000000000000

/-- The value in a document, which may be absent. -/
def Datum.ofDocument? : Json → Option (Option Datum)
  | .null => some none
  | .integer n => if isWord n then some (some (.key (.int n))) else none
  | _ => none

namespace MemberChange

def toDocument (c : MemberChange) : Json :=
  .object [("delta_type", c.intent.toJson), ("key", c.key.toJson)]

def ofParts? (intent key : Json) : Option MemberChange := do
  return ⟨← Intent.ofDocument? intent, .text (← key.text?)⟩

def ofDocument? (document : String) : Option MemberChange :=
  match Json.namedParts? ["delta_type", "key"] document with
  | some [some intent, some key] => ofParts? intent key
  | _ => none

end MemberChange

namespace EntryChange

def toDocument (c : EntryChange) : Json :=
  .object [("delta_type", c.intent.toJson), ("key", c.key.toJson),
    ("value", Json.option Datum.toJson c.value)]

def ofParts? (intent key value : Json) : Option EntryChange := do
  return ⟨← Intent.ofDocument? intent, .text (← key.text?), ← Datum.ofDocument? value⟩

def ofDocument? (document : String) : Option EntryChange :=
  match Json.namedParts? ["delta_type", "key", "value"] document with
  | some [some intent, some key, value] => ofParts? intent key (value.getD .null)
  | _ => none

end EntryChange

end VersionedRecords
