import VersionedRecords.Layout

/-!
The records of the order domain: customers, lines and orders.
-/

namespace VersionedRecords.Orders

/-- How far an order has come; orders begin as drafts. -/
def status : DatumType := .enumeration "Status" ["Draft", "Placed", "Shipped", "Cancelled"]

def tier : DatumType := .enumeration "Tier" ["Standard", "Gold"]

def customer : Layout :=
  { name := "Customer", keyName := "id", keyType := .integer .u64
    fields :=
      [⟨"name", .scalar (.key .text)⟩, ⟨"email", .scalar (.key .text)⟩, ⟨"tier", .scalar tier⟩]
    declaredFingerprint := some 4930865972470991843 }

def lineItem : Layout :=
  { name := "LineItem", keyName := "id", keyType := .line
    fields :=
      [⟨"sku", .scalar (.key .text)⟩, ⟨"quantity", .scalar (.key (.integer .u32))⟩,
        ⟨"unit_price_cents", .scalar (.key (.integer .u64))⟩]
    declaredFingerprint := some 11506227026615506283 }

def order : Layout :=
  { name := "Order", keyName := "id", keyType := .integer .u64
    fields :=
      [⟨"status", .scalar status⟩, ⟨"customer", .nested "Customer"⟩,
        ⟨"placed_at", .attached .timestamp⟩,
        ⟨"tags", .keySet .text⟩, ⟨"notes", .valueMap .text (.key .text)⟩,
        ⟨"lines", .modelMap .line "LineItem"⟩]
    declaredFingerprint := some 16523867865675632932 }

def all : List Layout := [customer, lineItem, order]

end VersionedRecords.Orders
