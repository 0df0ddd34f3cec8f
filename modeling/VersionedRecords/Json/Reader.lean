import VersionedRecords.Json.Basic

/-!
Reading JSON.  The grammar is the strict one: no comments, no trailing commas, no characters below
the space inside strings, no half of a surrogate pair without the other half.  Nesting is limited.

Every reading function takes the characters that are left and gives back those that are left after
it.  `fuel` bounds the number of steps; the number of characters is always enough.
-/

namespace VersionedRecords.Json

def isBlank (c : Char) : Bool := c == ' ' || c == '\n' || c == '\t' || c == '\r'

def skipBlanks (cs : List Char) : List Char := cs.dropWhile isBlank

def hexValue? (c : Char) : Option Nat :=
  if '0' ≤ c ∧ c ≤ '9' then some (c.toNat - '0'.toNat)
  else if 'a' ≤ c ∧ c ≤ 'f' then some (c.toNat - 'a'.toNat + 10)
  else if 'A' ≤ c ∧ c ≤ 'F' then some (c.toNat - 'A'.toNat + 10)
  else none

/-- Reads four hexadecimal digits. -/
def readUnit? : List Char → Option (Nat × List Char)
  | a :: b :: c :: d :: rest => do
    let n := (← hexValue? a) * 4096 + (← hexValue? b) * 256 + (← hexValue? c) * 16 + (← hexValue? d)
    return (n, rest)
  | _ => none

/-- Reads what follows a backslash and a `u`: one unit, or the two halves of a surrogate pair. -/
def readCode? (cs : List Char) : Option (Char × List Char) := do
  let (n, rest) ← readUnit? cs
  if 0xD800 ≤ n ∧ n < 0xDC00 then
    match rest with
    | '\\' :: 'u' :: rest => do
      let (m, rest) ← readUnit? rest
      if 0xDC00 ≤ m ∧ m < 0xE000 then
        return (Char.ofNat (0x10000 + (n - 0xD800) * 0x400 + (m - 0xDC00)), rest)
      else none
    | _ => none
  else if 0xDC00 ≤ n ∧ n < 0xE000 then none
  else return (Char.ofNat n, rest)

/-- The character of a short escape. -/
def shortEscape? : Char → Option Char
  | '"' => some '"'
  | '\\' => some '\\'
  | '/' => some '/'
  | 'b' => some '\x08'
  | 'f' => some '\x0c'
  | 'n' => some '\n'
  | 'r' => some '\r'
  | 't' => some '\t'
  | _ => none

/-- Reads the rest of a string, up to and including the closing quotation mark. -/
def readString? : Nat → List Char → List Char → Option (String × List Char)
  | 0, _, _ => none
  | _ + 1, _, [] => none
  | fuel + 1, done, c :: rest =>
    if c = '"' then some (String.ofList done.reverse, rest)
    else if c = '\\' then
      match rest with
      | 'u' :: rest => do
        let (c, rest) ← readCode? rest
        readString? fuel (c :: done) rest
      | e :: rest => do readString? fuel ((← shortEscape? e) :: done) rest
      | [] => none
    else if c.toNat < 0x20 then none
    else readString? fuel (c :: done) rest

/-- The digits in front, and what follows them. -/
def readDigits (cs : List Char) : List Char × List Char :=
  (cs.takeWhile Char.isDigit, cs.dropWhile Char.isDigit)

/-- The fraction of a number, if there is one. -/
def readFraction? : List Char → Option (List Char × List Char)
  | '.' :: rest =>
    let (ds, rest) := readDigits rest
    if ds.isEmpty then none else some ('.' :: ds, rest)
  | cs => some ([], cs)

/-- The exponent of a number, if there is one. -/
def readExponent? : List Char → Option (List Char × List Char)
  | [] => some ([], [])
  | e :: rest =>
    if e = 'e' ∨ e = 'E' then
      let (sign, rest) := match rest with
        | '+' :: rest => (['+'], rest)
        | '-' :: rest => (['-'], rest)
        | rest => ([], rest)
      let (ds, rest) := readDigits rest
      if ds.isEmpty then none else some (e :: sign ++ ds, rest)
    else some ([], e :: rest)

/-- The number that some decimal digits stand for. -/
def digitsValue (ds : List Char) : Nat := ds.foldl (fun n c => n * 10 + (c.toNat - '0'.toNat)) 0

/-- Reads a number. -/
def readNumber? (cs : List Char) : Option (Json × List Char) := do
  let (negative, cs) := match cs with
    | '-' :: rest => (true, rest)
    | cs => (false, cs)
  let (whole, rest) := readDigits cs
  if whole.isEmpty ∨ (whole.head? = some '0' ∧ 1 < whole.length) then none
  let (fraction, rest) ← readFraction? rest
  let (exponent, rest) ← readExponent? rest
  let n : Int := if negative then -(digitsValue whole : Int) else digitsValue whole
  if fraction.isEmpty ∧ exponent.isEmpty ∧ ¬(negative ∧ n = 0)
      ∧ -0x8000000000000000 ≤ n ∧ n < 0x10000000000000000 then
    return (integer n, rest)
  else
    return (inexact ((if negative then ['-'] else []) ++ whole ++ fraction ++ exponent), rest)

/-- Drops a word from the front. -/
def dropWord? (word : String) (cs : List Char) : Option (List Char) :=
  if word.toList.isPrefixOf cs then some (cs.drop word.length) else none

mutual

/-- Reads a value; `depth` is how many more levels of nesting are allowed. -/
def readValue? : Nat → Nat → List Char → Option (Json × List Char)
  | 0, _, _ => none
  | fuel + 1, depth, cs =>
    match skipBlanks cs with
    | 'n' :: rest => do return (null, ← dropWord? "ull" rest)
    | 't' :: rest => do return (bool true, ← dropWord? "rue" rest)
    | 'f' :: rest => do return (bool false, ← dropWord? "alse" rest)
    | '"' :: rest => do
      let (s, rest) ← readString? (rest.length + 1) [] rest
      return (text s, rest)
    | '[' :: rest =>
      if depth = 0 then none
      else match skipBlanks rest with
        | ']' :: rest => some (list [], rest)
        | rest => do
          let (items, rest) ← readItems? fuel (depth - 1) rest
          return (list items, rest)
    | '\x7b' :: rest =>
      if depth = 0 then none
      else match skipBlanks rest with
        | '\x7d' :: rest => some (object [], rest)
        | rest => do
          let (members, rest) ← readMembers? fuel (depth - 1) rest
          return (object members, rest)
    | rest => readNumber? rest

/-- Reads the items of a list that has some, and the closing bracket. -/
def readItems? : Nat → Nat → List Char → Option (List Json × List Char)
  | 0, _, _ => none
  | fuel + 1, depth, cs => do
    let (j, rest) ← readValue? fuel depth cs
    match skipBlanks rest with
    | ',' :: rest => do
      let (js, rest) ← readItems? fuel depth rest
      return (j :: js, rest)
    | ']' :: rest => return ([j], rest)
    | _ => none

/-- Reads the members of an object that has some, and the closing brace. -/
def readMembers? : Nat → Nat → List Char → Option (List (String × Json) × List Char)
  | 0, _, _ => none
  | fuel + 1, depth, cs =>
    match skipBlanks cs with
    | '"' :: rest => do
      let (name, rest) ← readString? (rest.length + 1) [] rest
      match skipBlanks rest with
      | ':' :: rest => do
        let (j, rest) ← readValue? fuel depth rest
        match skipBlanks rest with
        | ',' :: rest => do
          let (ms, rest) ← readMembers? fuel depth rest
          return ((name, j) :: ms, rest)
        | '\x7d' :: rest => return ([(name, j)], rest)
        | _ => none
      | _ => none
    | _ => none

end

/-- How many levels of nesting are read. -/
def depthLimit : Nat := 127

/-- The value of a text that holds one value and nothing else. -/
def parse? (s : String) : Option Json := do
  let cs := s.toList
  let (j, rest) ← readValue? (cs.length + 1) depthLimit cs
  if (skipBlanks rest).isEmpty then some j else none

/-! ### Values that are passed over

A value that nobody asks for may be nested as deeply as it likes, and the escapes in its strings need
not stand for characters. -/

/-- Skips the rest of a string. -/
def skipString? : List Char → Option (List Char)
  | [] => none
  | '"' :: rest => some rest
  | '\\' :: 'u' :: a :: b :: c :: d :: rest =>
    if [a, b, c, d].all fun x => (hexValue? x).isSome then skipString? rest else none
  | '\\' :: e :: rest => if (shortEscape? e).isSome then skipString? rest else none
  | c :: rest => if c.toNat < 0x20 ∨ c = '\\' then none else skipString? rest

mutual

/-- Skips a value. -/
def skipValue? : Nat → List Char → Option (List Char)
  | 0, _ => none
  | fuel + 1, cs =>
    match skipBlanks cs with
    | 'n' :: rest => dropWord? "ull" rest
    | 't' :: rest => dropWord? "rue" rest
    | 'f' :: rest => dropWord? "alse" rest
    | '"' :: rest => skipString? rest
    | '[' :: rest =>
      match skipBlanks rest with
      | ']' :: rest => some rest
      | rest => skipItems? fuel rest
    | '\x7b' :: rest =>
      match skipBlanks rest with
      | '\x7d' :: rest => some rest
      | rest => skipMembers? fuel rest
    | rest => (readNumber? rest).map Prod.snd

/-- Skips the items of a list that has some, and the closing bracket. -/
def skipItems? : Nat → List Char → Option (List Char)
  | 0, _ => none
  | fuel + 1, cs => do
    let rest ← skipValue? fuel cs
    match skipBlanks rest with
    | ',' :: rest => skipItems? fuel rest
    | ']' :: rest => some rest
    | _ => none

/-- Skips the members of an object that has some, and the closing brace. -/
def skipMembers? : Nat → List Char → Option (List Char)
  | 0, _ => none
  | fuel + 1, cs =>
    match skipBlanks cs with
    | '"' :: rest => do
      let rest ← skipString? rest
      match skipBlanks rest with
      | ':' :: rest => do
        let rest ← skipValue? fuel rest
        match skipBlanks rest with
        | ',' :: rest => skipMembers? fuel rest
        | '\x7d' :: rest => some rest
        | _ => none
      | _ => none
    | _ => none

end

/-- Reads the members of an object that has some, and the closing brace.  Values are skipped and kept
as they were written. -/
def readWrittenMembers? : Nat → List Char → Option (List (String × String) × List Char)
  | 0, _ => none
  | fuel + 1, cs =>
    match skipBlanks cs with
    | '"' :: rest => do
      let (name, rest) ← readString? (rest.length + 1) [] rest
      match skipBlanks rest with
      | ':' :: value => do
        let rest ← skipValue? (value.length + 1) value
        let written := String.ofList (value.take (value.length - rest.length))
        match skipBlanks rest with
        | ',' :: rest => do
          let (members, rest) ← readWrittenMembers? fuel rest
          return ((name, written) :: members, rest)
        | '\x7d' :: rest => return ([(name, written)], rest)
        | _ => none
      | _ => none
    | _ => none

/-- The members of a text that is an object, with their values as they were written. -/
def writtenMembers? (s : String) : Option (List (String × String)) :=
  match skipBlanks s.toList with
  | '\x7b' :: rest => do
    let (members, rest) ← match skipBlanks rest with
      | '\x7d' :: rest => some ([], rest)
      | rest => readWrittenMembers? (rest.length + 1) rest
    if (skipBlanks rest).isEmpty then some members else none
  | _ => none

end VersionedRecords.Json
