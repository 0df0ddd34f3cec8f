import VersionedRecords.Key
import VersionedRecords.Text.Quoted

/-!
The text by which a key is shown in messages.
-/

namespace VersionedRecords

namespace Text

/-- Named parts between braces. -/
def inspectParts (name : String) (parts : List (String × String)) : String :=
  if parts.isEmpty then name
  else name ++ " \x7b " ++ ", ".intercalate (parts.map fun p => p.1 ++ ": " ++ p.2) ++ " \x7d"

/-- A name applied to one value. -/
def inspectWrapped (name : String) (value : String) : String := name ++ "(" ++ value ++ ")"

/-- A value that may be absent. -/
def inspectOption : Option String → String
  | none => "None"
  | some s => inspectWrapped "Some" s

/-- Values in square brackets. -/
def inspectList (values : List String) : String := "[" ++ ", ".intercalate values ++ "]"

/-- The members of a set, in braces. -/
def inspectSet (members : List String) : String :=
  "\x7b" ++ ", ".intercalate members ++ "\x7d"

/-- The entries of a map, in braces. -/
def inspectMap (entries : List (String × String)) : String :=
  inspectSet (entries.map fun e => e.1 ++ ": " ++ e.2)

end Text

/-- The text of a key: texts and characters in quotation marks, the identity of a line with its two
parts by name, everything else as it is. -/
def Key.inspect : Key → String
  | .int n => toString n
  | .text s => Text.quote s
  | .char c => Text.quoteChar c
  | .bool b => if b then "true" else "false"
  | .line o l => Text.inspectParts "LineKey" [("order", toString o), ("line", toString l)]

end VersionedRecords
