import VersionedRecords.Orders.Layout
import VersionedRecords.Record.Edit

/-!
The edits that are particular to orders.
-/

namespace VersionedRecords.Orders

/-- The key of a line of the order being edited. -/
def lineKey (d : Draft) (line : Nat) : Key :=
  match d.key with
  | .int n => .line n.toNat line
  | _ => .line 0 line

/-- Stores a plain value in a field. -/
def setScalar (field : String) (v : Datum) : Edit := .field field (.set (.scalar v))

/-- The draft of a new line. -/
def newLine (key : Key) (sku : String) (quantity unitPriceCents : Nat) : Draft :=
  (Draft.new lineItem key).edited
    [setScalar "sku" (.key (.text sku)), setScalar "quantity" (.key (.int quantity)),
      setScalar "unit_price_cents" (.key (.int unitPriceCents))]

/-- Adds a line to an order, or replaces the line of that number. -/
def putLine (d : Draft) (line : Nat) (sku : String) (quantity unitPriceCents : Nat) : Draft :=
  let key := lineKey d line
  (Edit.run (.field "lines" (.putRecord key (newLine key sku quantity unitPriceCents))) d).1

/-- Changes the quantity of a line; tells whether there is such a line. -/
def setLineQuantity (d : Draft) (line quantity : Nat) : Draft × Bool :=
  let edit := Edit.field "lines" <|
    .entry (lineKey d line) (setScalar "quantity" (.key (.int quantity)))
  match edit.run d with
  | (d', .done) => (d', true)
  | (d', _) => (d', false)

/-- Removes a line; tells whether there was such a line. -/
def removeLine (d : Draft) (line : Nat) : Draft × Bool :=
  match (Edit.field "lines" (.remove (lineKey d line))).run d with
  | (d', .replaced b) => (d', b)
  | (d', _) => (d', false)

/-- Marks an order as placed at an instant, in milliseconds since the epoch. -/
def place (d : Draft) (millis : Nat) : Draft :=
  d.edited
    [setScalar "status" (.variant "Placed"),
      .field "placed_at" (.set (.attached (some (.timestamp millis))))]

end VersionedRecords.Orders
