import VersionedRecords.Json.Reader

/-!
The small parts of TOML: blanks, line ends, comments, strings and keys.  Every reading function
takes the characters that are left and gives back those that are left after it.  Where a function
takes `fuel`, the number of characters is always enough.
-/

namespace VersionedRecords.Toml

def isBlank (c : Char) : Bool := c == ' ' || c == '\t'

def skipBlanks (cs : List Char) : List Char := cs.dropWhile isBlank

/-- A character that may stand in a comment or in a literal string on one line: no control character
but the tab. -/
def isPlain (c : Char) : Bool := c == '\t' || (0x20 ≤ c.toNat && c.toNat != 0x7F)

/-- Reads a line break. -/
def newline? : List Char → Option (List Char)
  | '\n' :: rest => some rest
  | '\r' :: '\n' :: rest => some rest
  | _ => none

/-- The characters behind a comment, if there is one. -/
def skipComment : List Char → List Char
  | '#' :: rest => rest.dropWhile isPlain
  | cs => cs

/-- Reads the rest of a line with nothing of weight on it. -/
def endLine? (cs : List Char) : Option (List Char) :=
  match skipComment (skipBlanks cs) with
  | [] => some []
  | cs => newline? cs

/-- Skips blanks, line breaks and comments.  A comment ends with its line. -/
def skipLines? : Nat → List Char → Option (List Char)
  | 0, cs => some cs
  | fuel + 1, cs =>
    match skipBlanks cs with
    | '#' :: rest => newline? (rest.dropWhile isPlain) >>= skipLines? fuel
    | '\n' :: rest => skipLines? fuel rest
    | '\r' :: rest => newline? ('\r' :: rest) >>= skipLines? fuel
    | cs => some cs

/-- Skips blanks and line breaks. -/
def skipSpace : Nat → List Char → List Char
  | 0, cs => cs
  | fuel + 1, cs =>
    match newline? (skipBlanks cs) with
    | some rest => skipSpace fuel rest
    | none => skipBlanks cs

/-- Reads `count` hexadecimal digits as the number of a character. -/
def code? (count : Nat) (cs : List Char) : Option (Char × List Char) := do
  let digits := cs.take count
  if digits.length ≠ count then none
  let n ← digits.foldlM (fun n c => do return n * 16 + (← Json.hexValue? c)) 0
  if n < 0xD800 ∨ (0xDFFF < n ∧ n < 0x110000) then some (Char.ofNat n, cs.drop count) else none

/-- Reads what follows the backslash of an escape. -/
def escape? : List Char → Option (Char × List Char)
  | 'u' :: rest => code? 4 rest
  | 'U' :: rest => code? 8 rest
  | 'b' :: rest => some ('\x08', rest)
  | 't' :: rest => some ('\t', rest)
  | 'n' :: rest => some ('\n', rest)
  | 'f' :: rest => some ('\x0c', rest)
  | 'r' :: rest => some ('\r', rest)
  | '"' :: rest => some ('"', rest)
  | '\\' :: rest => some ('\\', rest)
  | _ => none

/-- Reads the rest of a quoted string on one line. -/
def quoted? : Nat → List Char → List Char → Option (String × List Char)
  | 0, _, _ => none
  | _ + 1, _, [] => none
  | fuel + 1, done, c :: rest =>
    if c = '"' then some (String.ofList done.reverse, rest)
    else if c = '\\' then do
      let (c, rest) ← escape? rest
      quoted? fuel (c :: done) rest
    else if isPlain c then quoted? fuel (c :: done) rest
    else none

/-- Reads the rest of a literal string on one line. -/
def literal? (cs : List Char) : Option (String × List Char) :=
  let body := cs.takeWhile fun c => isPlain c && c != '\''
  match cs.drop body.length with
  | '\'' :: rest => some (String.ofList body, rest)
  | _ => none

/-- The quotation marks at the front: how many, up to five, and whether they end a string of several
lines.  Three end it; one or two before these belong to the string. -/
def closing? (mark : Char) (cs : List Char) : Option (List Char × List Char) :=
  let marks := (cs.take 5).takeWhile (· == mark)
  if 3 ≤ marks.length then some (marks.drop 3, cs.drop marks.length) else none

/-- Reads the rest of a string of several lines; `escapes` tells whether the backslash is special.
-/
def block? (mark : Char) (escapes : Bool) : Nat → List Char → List Char →
    Option (String × List Char)
  | 0, _, _ => none
  | fuel + 1, done, cs =>
    match closing? mark cs with
    | some (marks, rest) => some (String.ofList (marks ++ done).reverse, rest)
    | none =>
      match newline? cs with
      | some rest => block? mark escapes fuel ('\n' :: done) rest
      | none =>
        match cs with
        | [] => none
        | c :: rest =>
          if c = '\\' ∧ escapes then
            match newline? (skipBlanks rest) with
            | some rest => block? mark escapes fuel done (skipSpace rest.length rest)
            | none => do
              let (c, rest) ← escape? rest
              block? mark escapes fuel (c :: done) rest
          else if isPlain c then block? mark escapes fuel (c :: done) rest
          else none

/-- Reads the rest of a string of several lines.  A line break right at its start does not count. -/
def startBlock? (mark : Char) (cs : List Char) : Option (String × List Char) :=
  let cs := (newline? cs).getD cs
  block? mark (mark == '"') (cs.length + 1) [] cs

/-- Reads a string of any sort. -/
def string? : List Char → Option (String × List Char)
  | '"' :: '"' :: '"' :: rest => startBlock? '"' rest
  | '\'' :: '\'' :: '\'' :: rest => startBlock? '\'' rest
  | '"' :: rest => quoted? (rest.length + 1) [] rest
  | '\'' :: rest => literal? rest
  | _ => none

/-- A character that may stand in a key without quotation marks. -/
def isBare (c : Char) : Bool := c.isAlphanum || c == '_' || c == '-'

/-- Reads one part of a key. -/
def keyPart? : List Char → Option (String × List Char)
  | '"' :: rest => quoted? (rest.length + 1) [] rest
  | '\'' :: rest => literal? rest
  | cs =>
    let part := cs.takeWhile isBare
    if part.isEmpty then none else some (String.ofList part, cs.drop part.length)

/-- Reads the parts of a key, with blanks around each. -/
def keyParts? : Nat → List Char → Option (List String × List Char)
  | 0, _ => none
  | fuel + 1, cs => do
    let (part, rest) ← keyPart? (skipBlanks cs)
    match skipBlanks rest with
    | '.' :: rest => do
      let (parts, rest) ← keyParts? fuel rest
      return (part :: parts, rest)
    | rest => return ([part], rest)

/-- How deep keys and values may be nested, plus one. -/
def depthLimit : Nat := 80

/-- Reads a key. -/
def key? (cs : List Char) : Option (List String × List Char) := do
  let (parts, rest) ← keyParts? (cs.length + 1) cs
  if parts.length < depthLimit then return (parts, rest) else none

end VersionedRecords.Toml
