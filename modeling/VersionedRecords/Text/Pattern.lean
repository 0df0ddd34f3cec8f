import VersionedRecords.Text.Alphanumeric

/-!
Which texts are numerals, and which are regular expressions for whole texts: characters, classes in
square brackets, groups in round brackets, alternatives, and the three marks of repetition, without
boundaries of words.  Repetition by numbers in braces is left out: where patterns are used, a brace
closes the place in which the pattern stands.
-/

namespace VersionedRecords.Text

/-! ### Numerals -/

/-- The text without a sign in front. -/
def skipSign : List Char → List Char
  | '+' :: rest => rest
  | '-' :: rest => rest
  | s => s

/-- Whether a text is a numeral: a decimal with an exponent if need be, or the name of a number that
has none, with a sign if need be. -/
def isNumeral (s : List Char) : Bool :=
  let s := (skipSign s).map Char.toLower
  let (whole, rest) := s.span Char.isDigit
  let (fraction, rest) := match rest with
    | '.' :: rest => rest.span Char.isDigit
    | rest => ([], rest)
  let isDecimal := !(whole.isEmpty && fraction.isEmpty) && match rest with
    | [] => true
    | 'e' :: exponent =>
      let digits := skipSign exponent
      !digits.isEmpty && digits.all Char.isDigit
    | _ => false
  isDecimal || ["inf", "infinity", "nan"].contains (String.ofList s)

namespace Pattern

/-! ### Parts -/

/-- What stands behind a backslash. -/
inductive Escape
  | character (c : Char)
  | characters
  /-- The beginning or the end of the text. -/
  | place

/-- The character whose code the first `n` hexadecimal digits are. -/
def codeOf? (n : Nat) (s : List Char) : Option (Escape × List Char) :=
  let digits := s.take n
  let value (c : Char) : Nat :=
    if c.isDigit then c.toNat - '0'.toNat else c.toLower.toNat - 'a'.toNat + 10
  let code := digits.foldl (fun n c => 16 * n + value c) 0
  if digits.length = n ∧ digits.all (fun c => c.isDigit || ('a' ≤ c.toLower && c.toLower ≤ 'f'))
      ∧ code.isValidChar then
    some (.character (Char.ofNat code), s.drop n)
  else none

/-- Reads what stands behind a backslash. -/
def escape? : List Char → Option (Escape × List Char)
  | [] => none
  | 'x' :: rest => codeOf? 2 rest
  | 'u' :: rest => codeOf? 4 rest
  | 'U' :: rest => codeOf? 8 rest
  | c :: rest =>
    if c = 'p' ∨ c = 'P' then
      match rest with
      | kind :: rest =>
        if "clmnpsz".toList.contains kind.toLower then some (.characters, rest) else none
      | [] => none
    else if "dswDSW".toList.contains c then some (.characters, rest)
    else if c = 'A' ∨ c = 'z' then some (.place, rest)
    else if "aftnrv".toList.contains c then
      let code := match c with
        | 'a' => 7
        | 'f' => 12
        | 't' => 9
        | 'n' => 10
        | 'r' => 13
        | _ => 11
      some (.character (Char.ofNat code), rest)
    else if c.toNat < 0x80 && !c.isAlphanum && c != '<' && c != '>' then
      some (.character c, rest)
    else none

/-- Reads a character or what a backslash stands for. -/
def element? : List Char → Option (Escape × List Char)
  | '\\' :: rest => escape? rest
  | c :: rest => some (.character c, rest)
  | [] => none

/-! ### Classes -/

/-- The names of classes that may stand between colons. -/
def classNames : List String :=
  ["alnum", "alpha", "ascii", "blank", "cntrl", "digit", "graph", "lower", "print", "punct",
   "space", "upper", "word", "xdigit"]

/-- What follows the name of a class in square brackets and colons. -/
def namedClass? (s : List Char) : Option (List Char) :=
  match s with
  | '[' :: ':' :: rest =>
    let rest := if rest.head? = some '^' then rest.tail else rest
    match rest.span (· != ':') with
    | (name, ':' :: ']' :: rest) =>
      if classNames.contains (String.ofList name) then some rest else none
    | _ => none
  | _ => none

/-- Reads the beginning of a class behind its bracket: a circumflex, hyphens, and a closing bracket
that stands for itself if nothing stands in front of it. -/
def openClass (s : List Char) : List Char :=
  let s := if s.head? = some '^' then s.tail else s
  match s.dropWhile (· == '-') with
  | ']' :: rest => if s.head? = some '-' then ']' :: rest else rest
  | rest => rest

/-- Reads one element of a class, or all from one to another. -/
def classRange? (s : List Char) : Option (List Char) :=
  match element? s with
  | some (.place, _) | none => none
  | some (first, '-' :: rest) =>
    if rest.head? = some ']' ∨ rest.head? = some '-' then some ('-' :: rest)
    else
      match first, element? rest with
      | .character a, some (.character b, rest) => if a ≤ b then some rest else none
      | _, _ => none
  | some (_, rest) => some rest

/-- Reads a class to its end, where `depth` classes are open. -/
def classEnd? : Nat → Nat → List Char → Option (List Char)
  | 0, _, _ => none
  | fuel + 1, depth, s =>
    match s with
    | [] => none
    | '[' :: inner =>
      match namedClass? s with
      | some rest => classEnd? fuel depth rest
      | none => classEnd? fuel (depth + 1) (openClass inner)
    | ']' :: rest => if depth ≤ 1 then some rest else classEnd? fuel (depth - 1) rest
    | '&' :: '&' :: rest | '-' :: '-' :: rest | '~' :: '~' :: rest => classEnd? fuel depth rest
    | _ => classRange? s >>= classEnd? fuel depth

/-! ### Groups -/

/-- Whether some characters are the name of a group. -/
def isGroupName : List Char → Bool
  | [] => false
  | c :: rest =>
    (c == '_' || (isAlphanumeric c && !c.isDigit))
      && rest.all fun c => ['_', '.', '[', ']'].contains c || isAlphanumeric c

/-- Whether some characters switch options on and, behind a hyphen, off. -/
def areOptions (s : List Char) : Bool :=
  s.all ("imsUuRx-".toList.contains ·) && s.eraseDups.length == s.length
    && s.getLast? != some '-'

/-- What stands at the beginning of a group. -/
inductive GroupHead
  | group
  | named (name : List Char)
  /-- Options for all that follows, which are no group. -/
  | options

/-- Reads the beginning of a group behind its bracket. -/
def groupHead? : List Char → Option (GroupHead × List Char)
  | '?' :: 'P' :: '<' :: rest | '?' :: '<' :: rest =>
    match rest.span (· != '>') with
    | (name, _ :: rest) => if isGroupName name then some (.named name, rest) else none
    | _ => none
  | '?' :: rest =>
    match rest.span fun c => c != ':' && c != ')' with
    | (options, ':' :: rest) => if areOptions options then some (.group, rest) else none
    | (options, ')' :: rest) =>
      if areOptions options && !options.isEmpty then some (.options, rest) else none
    | _ => none
  | rest => some (.group, rest)

/-! ### Patterns -/

/-- Whether what follows completes a pattern.  `depth` groups are open, `operand` tells whether
something that can be repeated stands in front, and `names` are the names of groups so far. -/
def completes : Nat → Nat → Bool → List (List Char) → List Char → Bool
  | 0, _, _, _, _ => false
  | fuel + 1, depth, operand, names, s =>
    match s with
    | [] => depth == 0
    | '(' :: rest =>
      match groupHead? rest with
      | some (.group, rest) => completes fuel (depth + 1) false names rest
      | some (.named name, rest) =>
        !names.contains name && completes fuel (depth + 1) false (name :: names) rest
      | some (.options, rest) => completes fuel depth false names rest
      | none => false
    | ')' :: rest => 0 < depth && completes fuel (depth - 1) true names rest
    | '|' :: rest => completes fuel depth false names rest
    | '[' :: rest =>
      match classEnd? (rest.length + 1) 1 (openClass rest) with
      | some rest => completes fuel depth true names rest
      | none => false
    | '\x7b' :: _ => false
    | c :: rest =>
      if ['*', '+', '?'].contains c then
        operand && completes fuel depth true names
          (if rest.head? = some '?' then rest.tail else rest)
      else
        match element? s with
        | some (_, rest) => completes fuel depth true names rest
        | none => false

end Pattern

/-- Whether a text is a pattern. -/
def isPattern (s : List Char) : Bool := Pattern.completes (s.length + 1) 0 false [] s

end VersionedRecords.Text
