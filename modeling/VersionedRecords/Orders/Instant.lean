import VersionedRecords.Record.Inspect

/-!
Instants: when an order was placed, in milliseconds since the epoch.
-/

namespace VersionedRecords.Orders.Instant

def text (millis : Nat) : String := toString millis ++ "ms"

def inspect (millis : Nat) : String := (Datum.timestamp millis).inspect

/-- An instant that every clock has passed by now. -/
def passed : Nat := 1760000000000

/-- Whether an instant is known to have come. -/
def hasCome (millis : Nat) : Bool := millis ≤ passed

end VersionedRecords.Orders.Instant
