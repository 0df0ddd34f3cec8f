import VersionedRecords.Source.Tree

/-!
The values of number literals.
-/

namespace VersionedRecords.Source

/-- A whole number that was written down. -/
structure IntegerLiteral where
  negative : Bool
  value : Nat
deriving DecidableEq, Repr

/-- Why a written number is no word of 64 bits. -/
inductive NumberFault
  | invalidDigit
  | tooLarge
deriving DecidableEq, Repr

def NumberFault.message : NumberFault → String
  | invalidDigit => "invalid digit found in string"
  | tooLarge => "number too large to fit in target type"

namespace IntegerLiteral

/-- The literal as a word of 64 bits.  A sign is no digit, even in front of zero. -/
def toWord (n : IntegerLiteral) : Except NumberFault Nat :=
  if n.negative then .error .invalidDigit
  else if n.value < 0x10000000000000000 then .ok n.value
  else .error .tooLarge

/-- Whether an exponent follows the letter for it, and not just a suffix. -/
def isExponent : Bool → List Char → Bool
  | found, [] => found
  | found, c :: rest =>
    if c = '_' then isExponent found rest
    else if c = '-' ∨ c = '+' then true
    else if c.isDigit then isExponent true rest
    else found && (Text.isIdentStart c && rest.all Text.isIdentContinue)

/-- Reads digits in a base and gives the number and the suffix behind it.  A number with a fraction or
an exponent is not whole. -/
def digits? (base : Nat) (found : Bool) (n : Nat) (cs : List Char) : Option (Nat × List Char) :=
  let ended : Option (Nat × List Char) := if found then some (n, cs) else none
  match cs with
  | [] => ended
  | c :: rest =>
    if c = '_' then digits? base found n rest
    else if c = '.' ∧ base = 10 then none
    else if (c = 'e' ∨ c = 'E') ∧ base = 10 then
      if isExponent false rest then none else ended
    else
      match Json.hexValue? c with
      | some d =>
        if c.isDigit ∨ 10 < base then
          if d < base then digits? base true (n * base + d) rest else none
        else ended
      | none => ended

/-- The whole number that a literal stands for, and its suffix. -/
def parts? (s : String) : Option (Nat × List Char) :=
  match s.toList with
  | '0' :: 'x' :: rest => digits? 16 false 0 rest
  | '0' :: 'o' :: rest => digits? 8 false 0 rest
  | '0' :: 'b' :: rest => digits? 2 false 0 rest
  | c :: rest => if c.isDigit then digits? 10 false 0 (c :: rest) else none
  | [] => none

/-- The whole number that a literal stands for. -/
def ofWritten? (s : String) : Option Nat := (parts? s).map Prod.fst

/-- Whether a literal is a number of any kind. -/
def isNumber (s : String) : Bool := s.toList.head?.any Char.isDigit

/-- Whether a literal is a number with a fraction or an exponent. -/
def isFraction (s : String) : Bool := isNumber s && (parts? s).isNone

/-- The place of a field of a tuple: a whole number of 32 bits without a suffix. -/
def index? (s : String) : Option Nat := do
  let (n, suffix) ← parts? s
  if suffix.isEmpty ∧ n < 0x100000000 then return n else none

end IntegerLiteral

end VersionedRecords.Source
