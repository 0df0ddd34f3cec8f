import VersionedRecords.Json.Reader
import VersionedRecords.Source.Token
import VersionedRecords.Text.Identifier

/-!
Cutting Rust source text into tokens.  Blanks and comments are skipped, but a documentation comment
becomes the attribute that it stands for.

Every reading function takes the characters that are left and gives back those that are left after
it.  Where a function takes `fuel`, the number of characters is always enough.
-/

namespace VersionedRecords.Source.Token

/-! ### Blanks and comments -/

/-- A blank between tokens; the marks for the direction of writing count as blanks. -/
def isSpace (c : Char) : Bool := Text.isBlank c || c == '\u200E' || c == '\u200F'

/-- The rest of a line, and what follows it. -/
def restOfLine : List Char → List Char × List Char
  | [] => ([], [])
  | '\n' :: rest => ([], '\n' :: rest)
  | '\r' :: '\n' :: rest => ([], '\n' :: rest)
  | c :: rest => (c :: (restOfLine rest).1, (restOfLine rest).2)

/-- What follows a block comment; `depth` is how many are open. -/
def closeComment? : Nat → List Char → Option (List Char)
  | depth, '/' :: '*' :: rest => closeComment? (depth + 1) rest
  | depth, '*' :: '/' :: rest => if depth ≤ 1 then some rest else closeComment? (depth - 1) rest
  | depth, _ :: rest => closeComment? depth rest
  | _, [] => none

/-- What follows a comment that documents nothing, if there is one. -/
def plainComment? : List Char → Option (List Char)
  | '/' :: '/' :: '!' :: _ => none
  | '/' :: '/' :: '/' :: '/' :: rest => some (restOfLine rest).2
  | '/' :: '/' :: '/' :: _ => none
  | '/' :: '/' :: rest => some (restOfLine rest).2
  | '/' :: '*' :: '*' :: '/' :: rest => some rest
  | '/' :: '*' :: '!' :: _ => none
  | '/' :: '*' :: '*' :: '*' :: rest => closeComment? 1 ('*' :: '*' :: rest)
  | '/' :: '*' :: '*' :: _ => none
  | '/' :: '*' :: rest => closeComment? 1 rest
  | _ => none

/-- Skips blanks and comments that document nothing. -/
def skipTrivia : Nat → List Char → List Char
  | 0, cs => cs
  | fuel + 1, cs =>
    match plainComment? cs with
    | some rest => skipTrivia fuel rest
    | none =>
      match cs with
      | c :: rest => if isSpace c then skipTrivia fuel rest else cs
      | [] => []

/-- The characters of a list up to a given tail of it. -/
def upTo (rest cs : List Char) : List Char := cs.take (cs.length - rest.length)

/-- The tokens that a documentation comment stands for.  An inner one has an exclamation mark. -/
def docTokens (inner : Bool) (comment : List Char) : List Token :=
  [.mark '#' false] ++ (if inner then [.mark '!' false] else [])
    ++ [.enter .square, .word "doc", .mark '=' false, .ofText (String.ofList comment),
      .leave .square]

/-- Whether every carriage return stands before a line feed. -/
def returnsPaired : List Char → Bool
  | '\r' :: '\n' :: rest => returnsPaired rest
  | '\r' :: _ => false
  | _ :: rest => returnsPaired rest
  | [] => true

/-- Reads a block comment, without its marks of three characters and of two. -/
def blockDoc? (cs : List Char) : Option (List Char × List Char) := do
  let rest ← closeComment? 0 cs
  let whole := upTo rest cs
  return ((whole.drop 3).take (whole.length - 5), rest)

/-- Reads a documentation comment. -/
def docComment? (cs : List Char) : Option (List Token × List Char) := do
  let (inner, comment, rest) ← match cs with
    | '/' :: '/' :: '!' :: rest => some (true, restOfLine rest)
    | '/' :: '*' :: '!' :: _ => (blockDoc? cs).map (true, ·)
    | '/' :: '/' :: '/' :: rest =>
      if rest.head? = some '/' then none else some (false, restOfLine rest)
    | '/' :: '*' :: '*' :: rest =>
      if rest.head? = some '*' then none else (blockDoc? cs).map (false, ·)
    | _ => none
  if returnsPaired comment then return (docTokens inner comment, rest) else none

/-! ### Words -/

/-- Reads an identifier that is not raw. -/
def plainWord? : List Char → Option (List Char × List Char)
  | c :: rest =>
    if Text.isIdentStart c then
      some (c :: rest.takeWhile Text.isIdentContinue, rest.dropWhile Text.isIdentContinue)
    else none
  | [] => none

/-- The words that cannot be raw identifiers. -/
def neverRaw : List String := ["_", "super", "self", "Self", "crate"]

/-- Reads an identifier. -/
def word? : List Char → Option (String × List Char)
  | 'r' :: '#' :: rest => do
    let (w, rest) ← plainWord? rest
    if String.ofList w ∈ neverRaw then none else return ("r#" ++ String.ofList w, rest)
  | cs => do
    let (w, rest) ← plainWord? cs
    return (String.ofList w, rest)

/-- What follows the suffix of a literal, if it has one. -/
def skipSuffix (cs : List Char) : List Char := ((plainWord? cs).map Prod.snd).getD cs

/-! ### Strings and characters -/

/-- Reads the code of a character between braces: up to six digits, with underscores behind the
first. -/
def codeInBraces? : Nat → Nat → List Char → Option (Char × List Char)
  | _, _, [] => none
  | count, n, c :: rest =>
    if c = '\x7d' ∧ 0 < count then
      if n < 0xD800 ∨ (0xDFFF < n ∧ n < 0x110000) then some (Char.ofNat n, rest) else none
    else if c = '_' ∧ 0 < count then codeInBraces? count n rest
    else
      match Json.hexValue? c with
      | some d => if count < 6 then codeInBraces? (count + 1) (n * 16 + d) rest else none
      | none => none

/-- What a string or a character literal is made of. -/
inductive Content
  /-- Characters. -/
  | text
  /-- Bytes, written as characters of one byte each. -/
  | bytes
  /-- Characters or bytes, none of which is zero. -/
  | nonzero
deriving DecidableEq, Repr

/-- Whether a character may stand for itself. -/
def Content.allows : Content → Char → Bool
  | text, _ => true
  | bytes, c => c.toNat < 128
  | nonzero, c => c != '\x00'

/-- Reads what follows the backslash of an escape. -/
def escape? (content : Content) : List Char → Option (Char × List Char)
  | 'n' :: rest => some ('\n', rest)
  | 'r' :: rest => some ('\r', rest)
  | 't' :: rest => some ('\t', rest)
  | '\\' :: rest => some ('\\', rest)
  | '0' :: rest => if content = .nonzero then none else some ('\x00', rest)
  | '\'' :: rest => some ('\'', rest)
  | '"' :: rest => some ('"', rest)
  | 'x' :: a :: b :: rest => do
    let n := (← Json.hexValue? a) * 16 + (← Json.hexValue? b)
    let allowed : Bool := match content with
      | .text => n < 128
      | .bytes => true
      | .nonzero => n != 0
    if allowed then return (Char.ofNat n, rest) else none
  | 'u' :: '\x7b' :: rest => do
    let (c, rest) ← codeInBraces? 0 0 rest
    if content ≠ .bytes ∧ content.allows c then return (c, rest) else none
  | _ => none

/-- What follows the blanks that a backslash at the end of a line swallows.  A carriage return has to
stand before a line feed, and something has to follow. -/
def skipLineBlanks? : List Char → Option (List Char)
  | '\r' :: '\n' :: rest => skipLineBlanks? rest
  | '\r' :: _ => none
  | ' ' :: rest => skipLineBlanks? rest
  | '\t' :: rest => skipLineBlanks? rest
  | '\n' :: rest => skipLineBlanks? rest
  | [] => none
  | cs => some cs

/-- Reads the rest of a string. -/
def string? (content : Content) : Nat → List Char → List Char → Option (String × List Char)
  | 0, _, _ => none
  | fuel + 1, done, cs =>
    match cs with
    | '"' :: rest => some (String.ofList done.reverse, rest)
    | '\\' :: '\n' :: rest => skipLineBlanks? rest >>= string? content fuel done
    | '\\' :: '\r' :: '\n' :: rest => skipLineBlanks? rest >>= string? content fuel done
    | '\\' :: rest => do
      let (c, rest) ← escape? content rest
      string? content fuel (c :: done) rest
    | '\r' :: '\n' :: rest => string? content fuel ('\n' :: done) rest
    | '\r' :: _ => none
    | c :: rest => if content.allows c then string? content fuel (c :: done) rest else none
    | [] => none

/-- Reads a raw string up to a quotation mark with `hashes` behind it. -/
def rawBody? (content : Content) (hashes : Nat) :
    List Char → List Char → Option (String × List Char)
  | _, [] => none
  | done, c :: rest =>
    if c = '"' ∧ (rest.take hashes).length = hashes ∧ (rest.take hashes).all (· == '#') then
      some (String.ofList done.reverse, rest.drop hashes)
    else if !content.allows c || (c == '\r' && rest.head? != some '\n') then none
    else rawBody? content hashes (c :: done) rest

/-- Reads a raw string behind its letter.  There may be up to 255 hashes. -/
def rawString? (content : Content) (cs : List Char) : Option (String × List Char) :=
  let hashes := (cs.takeWhile (· == '#')).length
  match cs.drop hashes with
  | '"' :: rest => if hashes < 256 then rawBody? content hashes [] rest else none
  | _ => none

/-- Reads the rest of a character, up to and including the closing mark. -/
def character? (content : Content) (cs : List Char) : Option (List Char) := do
  let rest ← match cs with
    | '\\' :: rest => (escape? content rest).map Prod.snd
    | c :: rest => if content.allows c then some rest else none
    | [] => none
  match rest with
  | '\'' :: rest => some rest
  | _ => none

/-! ### Numbers -/

/-- What follows digits and underscores. -/
def skipDigits (cs : List Char) : List Char := cs.dropWhile fun c => c.isDigit || c == '_'

/-- What follows an exponent: a sign may stand in front, and there must be a digit. -/
def exponent? (signed valued : Bool) : List Char → Option (List Char)
  | [] => if valued then some [] else none
  | c :: rest =>
    if c = '+' ∨ c = '-' then
      if valued then some (c :: rest)
      else if signed then none
      else exponent? true valued rest
    else if c.isDigit then exponent? signed true rest
    else if c = '_' then exponent? signed valued rest
    else if valued then some (c :: rest)
    else none

/-- What follows the digits of a number with a fraction or an exponent. -/
def floatDigits? (cs : List Char) : Option (List Char) :=
  match cs with
  | [] => none
  | c :: _ =>
    if !c.isDigit then none
    else
      match skipDigits cs with
      | '.' :: rest =>
        if rest.head?.any fun c => c == '.' || Text.isIdentStart c then none
        else
          let rest := skipDigits rest
          match rest with
          | e :: rest' =>
            if e = 'e' ∨ e = 'E' then some ((exponent? false false rest').getD rest) else some rest
          | [] => some []
      | e :: rest => if e = 'e' ∨ e = 'E' then exponent? false false rest else none
      | [] => none

/-- What follows the digits of a whole number in a base.  There must be at least one digit, and none
that the base does not have; letters that are no digits are left. -/
def baseDigits? (base : Nat) (found : Bool) : List Char → Option (List Char)
  | [] => if found then some [] else none
  | c :: rest =>
    if c = '_' then
      if !found && base == 10 then none else baseDigits? base found rest
    else
      match Json.hexValue? c with
      | some d =>
        if d < base then baseDigits? base true rest
        else if c.isDigit then none
        else if found then some (c :: rest)
        else none
      | none => if found then some (c :: rest) else none

/-- What follows the digits of a whole number, with its base in front. -/
def wholeDigits? : List Char → Option (List Char)
  | '0' :: 'x' :: rest => baseDigits? 16 false rest
  | '0' :: 'o' :: rest => baseDigits? 8 false rest
  | '0' :: 'b' :: rest => baseDigits? 2 false rest
  | cs => baseDigits? 10 false cs

/-- What follows the suffix of a number.  Nothing that may stand inside a word may follow. -/
def endNumber? (cs : List Char) : Option (List Char) :=
  let rest := skipSuffix cs
  if rest.head?.any Text.isIdentContinue then none else some rest

/-- What follows a number and its suffix. -/
def number? (cs : List Char) : Option (List Char) :=
  (floatDigits? cs >>= endNumber?).or (wholeDigits? cs >>= endNumber?)

/-! ### Tokens -/

/-- Reads a literal. -/
def literal? (cs : List Char) : Option (Token × List Char) :=
  let fuel := cs.length + 1
  let other (rest : Option (List Char)) : Option (Token × List Char) := do
    let rest := skipSuffix (← rest)
    return (.literal (String.ofList (upTo rest cs)), rest)
  let string (read : Option (String × List Char)) : Option (Token × List Char) := do
    let (value, rest) ← read
    let rest := skipSuffix rest
    return (.text (String.ofList (upTo rest cs)) value, rest)
  match cs with
  | '"' :: rest => string (string? .text fuel [] rest)
  | 'r' :: rest => string (rawString? .text rest)
  | 'b' :: '"' :: rest => other ((string? .bytes fuel [] rest).map Prod.snd)
  | 'b' :: 'r' :: rest => other ((rawString? .bytes rest).map Prod.snd)
  | 'b' :: '\'' :: rest => other (character? .bytes rest)
  | 'c' :: '"' :: rest => other ((string? .nonzero fuel [] rest).map Prod.snd)
  | 'c' :: 'r' :: rest => other ((rawString? .nonzero rest).map Prod.snd)
  | '\'' :: rest => other (character? .text rest)
  | _ => do
    let rest ← number? cs
    return (.literal (String.ofList (upTo rest cs)), rest)

/-- The punctuation characters. -/
def marks : List Char := "~!@#$%^&*-=+|;:,<.>/?'".toList

/-- Whether a punctuation mark stands here, and not a comment. -/
def startsMark : List Char → Bool
  | '/' :: '/' :: _ => false
  | '/' :: '*' :: _ => false
  | c :: _ => marks.contains c
  | [] => false

/-- Reads a punctuation mark.  An apostrophe has to stand before a word. -/
def mark? (cs : List Char) : Option (Token × List Char) :=
  match cs with
  | c :: rest =>
    if !startsMark cs then none
    else if c = '\'' then do
      let (w, behind) ← word? rest
      if behind.head? = some '\'' ∨ (behind.head? = some '#' ∧ !w.startsWith "r#") then none
      else return (.mark '\'' true, rest)
    else some (.mark c (startsMark rest), rest)
  | [] => none

/-- The beginnings of literals that are no words even where the literal cannot be read. -/
def literalStarts : List (List Char) :=
  ["r\"", "r#\"", "r##", "b\"", "b'", "br\"", "br#", "c\"", "cr\"", "cr#"].map String.toList

/-- Reads a bracket. -/
def bracket? : List Char → Option (Token × List Char)
  | '(' :: rest => some (.enter .round, rest)
  | '[' :: rest => some (.enter .square, rest)
  | '\x7b' :: rest => some (.enter .brace, rest)
  | ')' :: rest => some (.leave .round, rest)
  | ']' :: rest => some (.leave .square, rest)
  | '\x7d' :: rest => some (.leave .brace, rest)
  | _ => none

/-- The literal that stands for something that could not be read elsewhere. -/
def placeholder : String := "(/*ERROR*/)"

/-- Reads the placeholder.  It comes before the bracket that it begins with. -/
def placeholder? (cs : List Char) : Option (Token × List Char) :=
  if placeholder.toList.isPrefixOf cs then
    some (.literal placeholder, cs.drop placeholder.length)
  else none

/-- Reads a token that is no comment. -/
def token? (cs : List Char) : Option (Token × List Char) :=
  (placeholder? cs).or <| (bracket? cs).or <| (literal? cs).or <| (mark? cs).or <|
    if literalStarts.any fun s => s.isPrefixOf cs then none
    else (word? cs).map fun w => (.word w.1, w.2)

/-- The tokens of a text. -/
def lex? : Nat → List Char → Option (List Token)
  | 0, _ => none
  | fuel + 1, cs =>
    match skipTrivia cs.length cs with
    | [] => some []
    | cs =>
      match docComment? cs with
      | some (ts, rest) => do return ts ++ (← lex? fuel rest)
      | none => do
        let (t, rest) ← token? cs
        return t :: (← lex? fuel rest)

/-- The tokens of a text.  A byte order mark in front does not count. -/
def ofSource? (s : String) : Option (List Token) :=
  match s.toList with
  | '\uFEFF' :: rest => lex? (rest.length + 1) rest
  | cs => lex? (cs.length + 1) cs

/-- The tokens of a fixed piece of code. -/
def code (s : String) : List Token := (ofSource? s).getD []

end VersionedRecords.Source.Token
