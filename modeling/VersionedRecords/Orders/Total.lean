import VersionedRecords.Orders.Layout
import VersionedRecords.Record.Snapshot

/-!
What an order costs, in whole cents.  Amounts are below 2 ^ 64; a product or a sum that is not is
refused.
-/

namespace VersionedRecords.Orders

/-- The step in which an amount became too large. -/
inductive AmountOverflow
  | multiplication
  | addition
deriving DecidableEq, Repr

namespace AmountOverflow

/-- The kind of failure, as reported beside its message. -/
def kind : String := "Panic"

def message : AmountOverflow → String
  | multiplication => "attempt to multiply with overflow"
  | addition => "attempt to add with overflow"

end AmountOverflow

/-- Amounts stay below this number. -/
def amountLimit : Nat := 0x10000000000000000

/-- The whole number in a field, or zero. -/
def numberIn (s : Snapshot) (field : String) : Nat :=
  match s.field? field with
  | some (.scalar (.key (.int n))) => n.toNat
  | _ => 0

/-- The lines of an order. -/
def linesOf (s : Snapshot) : Keyed Snapshot :=
  match s.field? "lines" with
  | some (.modelMap _ es) => es
  | _ => []

/-- The exact price of a line. -/
def linePrice (line : Snapshot) : Nat := numberIn line "quantity" * numberIn line "unit_price_cents"

/-- Quantity times unit price of a line. -/
def lineTotal (line : Snapshot) : Except AmountOverflow Nat :=
  if linePrice line < amountLimit then .ok (linePrice line) else .error .multiplication

/-- The sum of the totals of some lines, added one after the other to what has come together so far.
-/
def sumLines : Nat → List Snapshot → Except AmountOverflow Nat
  | sum, [] => .ok sum
  | sum, line :: rest => do
    let price ← lineTotal line
    if sum + price < amountLimit then sumLines (sum + price) rest else .error .addition

/-- The sum of all line totals of an order. -/
def total (order : Snapshot) : Except AmountOverflow Nat :=
  sumLines 0 ((linesOf order).map Prod.snd)

end VersionedRecords.Orders
