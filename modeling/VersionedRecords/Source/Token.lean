import VersionedRecords.Json.Basic
import VersionedRecords.Text.Blank
import VersionedRecords.Text.Quoted

/-!
Tokens of Rust source text: words, punctuation marks, literals and brackets.
-/

namespace VersionedRecords.Source

inductive Bracket
  | round
  | square
  | brace
deriving DecidableEq, Repr

namespace Bracket

def opening : Bracket → String
  | round => "("
  | square => "["
  | brace => "\x7b"

def closing : Bracket → String
  | round => ")"
  | square => "]"
  | brace => "\x7d"

end Bracket

inductive Token
  /-- An identifier or a keyword; a raw identifier keeps its `r#`. -/
  | word (text : String)
  /-- One punctuation character.  It is joined if another one stands right behind it. -/
  | mark (char : Char) (joined : Bool)
  /-- A string, as it was written and as it reads. -/
  | text (written value : String)
  /-- Any other literal, as it was written. -/
  | literal (written : String)
  | enter (bracket : Bracket)
  | leave (bracket : Bracket)
deriving DecidableEq, Repr

namespace Token

/-- The token as it stands in source text. -/
def written : Token → String
  | word s => s
  | mark c _ => String.singleton c
  | text s _ => s
  | literal s => s
  | enter b => b.opening
  | leave b => b.closing

/-- The token as it is shown in a listing: a string by its value, all else as it was written. -/
def shown : Token → String
  | text _ value => Json.renderText value
  | t => t.written

/-- A listing of some tokens. -/
def listing (ts : List Token) : String := " ".intercalate (ts.map shown)

/-- Some tokens as one text without any blanks. -/
def compact (ts : List Token) : String :=
  String.ofList ((ts.flatMap fun t => t.written.toList).filter fun c => !Text.isBlank c)

/-- The characters of a string literal for some text.  Single quotation marks stand for themselves,
and no digit may seem to belong to the code of the character zero. -/
def escapeText : List Char → List Char
  | [] => []
  | c :: rest =>
    (if c = '\x00' ∧ rest.head?.any fun d => decide ('0' ≤ d ∧ d ≤ '7') then "\\x00".toList
      else Text.escapeWithin '"' c)
    ++ escapeText rest

/-- The string literal for a value. -/
def ofText (value : String) : Token :=
  text (String.ofList ('"' :: escapeText value.toList ++ ['"'])) value

end Token

end VersionedRecords.Source
