import VersionedRecords.Text.Printable
import VersionedRecords.Text.GraphemeExtend

/-!
Quoted texts and characters.  A quotation mark of the kind that encloses the text, the backslash and
the four common control characters get short escapes; any other character without a visible form of
its own is written by its code.  So a quoted text is always one printable line.
-/

namespace VersionedRecords.Text

/-- A character written by its code, in hexadecimal digits between braces. -/
def escapeByCode (c : Char) : List Char :=
  ['\\', 'u', '\x7b'] ++ Nat.toDigits 16 c.toNat ++ ['\x7d']

/-- One character as it stands between quotation marks `mark`. -/
def escapeWithin (mark : Char) (c : Char) : List Char :=
  if c = '\x00' then ['\\', '0']
  else if c = '\t' then ['\\', 't']
  else if c = '\n' then ['\\', 'n']
  else if c = '\r' then ['\\', 'r']
  else if c = '\\' then ['\\', '\\']
  else if c = mark then ['\\', mark]
  else if isGraphemeExtend c then escapeByCode c
  else if isPrintable c then [c]
  else escapeByCode c

/-- A text between double quotation marks. -/
def quote (s : String) : String :=
  String.ofList ('"' :: s.toList.flatMap (escapeWithin '"') ++ ['"'])

/-- A character between single quotation marks. -/
def quoteChar (c : Char) : String :=
  String.ofList ('\'' :: escapeWithin '\'' c ++ ['\''])

end VersionedRecords.Text
