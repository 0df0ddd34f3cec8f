import VersionedRecords.Decimal.Shortest

/-!
Floating-point numbers, kept as the 64 bits of their binary interchange format.  Two comparisons
live side by side: `=` compares bits, `same` compares numbers.  They differ for the two zeros, which
are the same number, and for the not-a-number patterns, which are the same as nothing.
-/

namespace VersionedRecords

/-- A number in the 64-bit binary interchange format. -/
structure Binary64 where
  bits : UInt64
deriving DecidableEq, Repr, Inhabited

namespace Binary64

/-- The eleven bits of the biased exponent. -/
def exponentBits (x : Binary64) : Nat := x.bits.toNat / 0x10000000000000 % 0x800

/-- The fifty-two bits behind the binary point. -/
def fractionBits (x : Binary64) : Nat := x.bits.toNat % 0x10000000000000

def isNegative (x : Binary64) : Bool := 0x8000000000000000 ≤ x.bits.toNat

def isNaN (x : Binary64) : Bool := x.exponentBits == 2047 && x.fractionBits != 0

def isInfinite (x : Binary64) : Bool := x.exponentBits == 2047 && x.fractionBits == 0

def isZero (x : Binary64) : Bool := x.exponentBits == 0 && x.fractionBits == 0

def zero : Binary64 := ⟨0⟩

/-- Equality as numbers. -/
def same (x y : Binary64) : Bool :=
  !x.isNaN && !y.isNaN && (x == y || (x.isZero && y.isZero))

/-- Neither a not-a-number pattern nor the negative zero: the numbers on which `same` and `=` agree.
-/
def isPlain (x : Binary64) : Bool := !x.isNaN && !(x.isZero && x.isNegative)

/-- The interval of reals that round to a finite non-zero number, signs aside.  Its ends belong to
it when the significand is even; just above a power of two the lower half of it is half as wide. -/
def interval (x : Binary64) : Decimal.Interval :=
  let (m, e) : Nat × Nat :=
    if x.exponentBits = 0 then (x.fractionBits, 1)
    else (0x10000000000000 + x.fractionBits, x.exponentBits)
  let narrow := x.fractionBits == 0 && 1 < x.exponentBits
  -- the number is m * 2 ^ (e - 1075); quarters of the last place keep all three ends whole
  let (scale, den) : Nat × Nat :=
    if 1077 ≤ e then (Nat.pow 2 (e - 1077), 1) else (1, Nat.pow 2 (1077 - e))
  { low := (4 * m - if narrow then 1 else 2) * scale
    value := 4 * m * scale
    high := (4 * m + 2) * scale
    den := den
    closed := m % 2 == 0 }

/-- How the text of a number is laid out. -/
structure Style where
  /-- The least and greatest decimal exponent of the leading digit that is written positionally. -/
  positionalFrom : Int
  positionalTo : Int
  /-- The texts of the numbers without digits. -/
  notANumber : String
  infinity : String

/-- Numbers from `1e-4` up to but not including `1e16` are written positionally, with at least one
digit behind the point; all others with an exponent. -/
def style : Style := ⟨-4, 15, "NaN", "inf"⟩

/-- `digits * 10 ^ exponent` written without an exponent. -/
def positional (digits : List Char) (exponent : Int) : List Char :=
  match exponent with
  | .ofNat e => digits ++ List.replicate e '0' ++ ['.', '0']
  | .negSucc e =>
    let places := e + 1
    if places < digits.length then
      digits.take (digits.length - places) ++ ['.'] ++ digits.drop (digits.length - places)
    else ['0', '.'] ++ List.replicate (places - digits.length) '0' ++ digits

/-- `digits * 10 ^ exponent` with the point behind the first digit. -/
def scientific (digits : List Char) (exponent : Int) : List Char :=
  let leading := exponent + (digits.length : Int) - 1
  let head := match digits with
    | d :: rest@(_ :: _) => d :: '.' :: rest
    | ds => ds
  head ++ ['e'] ++ (toString leading).toList

/-- The text of a number: the fewest digits that read back as the same number. -/
def inspect (x : Binary64) : String :=
  if x.isNaN then style.notANumber
  else
    let sign := if x.isNegative then ['-'] else []
    if x.isInfinite then String.ofList (sign ++ style.infinity.toList)
    else if x.isZero then String.ofList (sign ++ ['0', '.', '0'])
    else
      let s := x.interval.shortest.normalise
      let digits := Nat.toDigits 10 s.digits
      let leading := s.exponent + (digits.length : Int) - 1
      let body :=
        if style.positionalFrom ≤ leading ∧ leading ≤ style.positionalTo then
          positional digits s.exponent
        else scientific digits s.exponent
      String.ofList (sign ++ body)

end Binary64

end VersionedRecords
