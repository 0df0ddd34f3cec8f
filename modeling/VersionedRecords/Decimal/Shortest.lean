/-!
The shortest decimal that still stands for a given binary fraction.

A positive number `m * 2 ^ q` with a neighbourhood of reals that round to it is written with as few
digits as possible so that the decimal lies in the neighbourhood; of two such decimals with equally
many digits the nearer one is taken, and of two equally near ones the larger.  All arithmetic is on
natural numbers.
-/

namespace VersionedRecords.Decimal

/-- A positive rational together with the interval of numbers that stand for it, all three over one
denominator. -/
structure Interval where
  low : Nat
  value : Nat
  high : Nat
  den : Nat
  /-- Whether the two ends belong to the interval. -/
  closed : Bool

/-- The decimal `digits * 10 ^ exponent`. -/
structure Scaled where
  digits : Nat
  exponent : Int
deriving DecidableEq, Repr

namespace Interval

/-- Whether `n / d` lies in the interval. -/
def contains (i : Interval) (n d : Nat) : Bool :=
  if i.closed then i.low * d ≤ n * i.den && n * i.den ≤ i.high * d
  else i.low * d < n * i.den && n * i.den < i.high * d

/-- The least `k` with `value < 10 ^ k`, for a value below `10 ^ 400` and not below `10 ^ (-400)`.
-/
def magnitude (i : Interval) : Int :=
  if i.den ≤ i.value then
    (((List.range 400).find? fun k => i.value < i.den * Nat.pow 10 k).getD 400 : Nat)
  else
    1 - (((List.range 400).find? fun k => i.den ≤ i.value * Nat.pow 10 k).getD 400 : Nat)

/-- The numerator and denominator of `digits * 10 ^ exponent`. -/
def fraction (digits : Nat) : Int → Nat × Nat
  | .ofNat e => (digits * Nat.pow 10 e, 1)
  | .negSucc e => (digits, Nat.pow 10 (e + 1))

/-- The decimal on the grid `10 ^ exponent` that stands for the value, if there is one: the nearer
of the two neighbours of the value on that grid. -/
def onGrid? (i : Interval) (exponent : Int) : Option Scaled :=
  let (gridNum, gridDen) := fraction 1 exponent
  let below := i.value * gridDen / (i.den * gridNum)
  let above := below + 1
  let holds := fun d => let (n, e) := fraction d exponent; i.contains n e
  -- twice the value lies below the sum of its neighbours iff the lower neighbour is nearer
  let lowerNearer := 2 * i.value * gridDen < (2 * below + 1) * gridNum * i.den
  match holds below && below != 0, holds above with
  | true, true => some ⟨if lowerNearer then below else above, exponent⟩
  | true, false => some ⟨below, exponent⟩
  | false, true => some ⟨above, exponent⟩
  | false, false => none

/-- The shortest decimal in the interval: grids are tried from coarse to fine. -/
def shortest (i : Interval) : Scaled :=
  let k := i.magnitude
  ((List.range 18).findSome? fun n => i.onGrid? (k - ((n : Nat) : Int) - 1)).getD ⟨0, 0⟩

end Interval

/-- Moves at most `bound` zeros from the end of the digits into the exponent. -/
def Scaled.dropZeros : Nat → Scaled → Scaled
  | 0, s => s
  | bound + 1, s =>
    if s.digits != 0 && s.digits % 10 == 0 then dropZeros bound ⟨s.digits / 10, s.exponent + 1⟩
    else s

/-- The same decimal with no zero at the end of its digits.  A number below `10 ^ n` has fewer than
`n` such zeros, and the digits found by `Interval.shortest` stay below `10 ^ 18`. -/
def Scaled.normalise (s : Scaled) : Scaled := s.dropZeros 18

end VersionedRecords.Decimal
