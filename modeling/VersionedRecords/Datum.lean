import VersionedRecords.Key
import VersionedRecords.Binary64

/-!
The plain values of scalar fields and of map entries, and their types.  Every type has a zero value,
which a field holds until something is stored in it.
-/

namespace VersionedRecords

/-- The widths and signs of whole numbers. -/
inductive IntegerType
  | u8 | u16 | u32 | u64 | i8 | i16 | i32 | i64
deriving DecidableEq, Repr

namespace IntegerType

def name : IntegerType → String
  | u8 => "u8" | u16 => "u16" | u32 => "u32" | u64 => "u64"
  | i8 => "i8" | i16 => "i16" | i32 => "i32" | i64 => "i64"

end IntegerType

/-- The types whose values can serve as keys. -/
inductive KeyType
  | text
  | integer (type : IntegerType)
  | char
  | bool
  | line
deriving DecidableEq, Repr

namespace KeyType

def name : KeyType → String
  | text => "String"
  | integer t => t.name
  | char => "char"
  | bool => "bool"
  | line => "LineKey"

def zero : KeyType → Key
  | text => .text ""
  | integer _ => .int 0
  | char => .char '\x00'
  | bool => .bool false
  | line => .line 0 0

end KeyType

/-- A plain value. -/
inductive Datum
  | key (value : Key)
  | float (value : Binary64)
  | bytes (value : List UInt8)
  /-- One of the named variants of an enumeration. -/
  | variant (name : String)
  /-- Milliseconds since the epoch. -/
  | timestamp (millis : Nat)
deriving DecidableEq, Repr, Inhabited

/-- The types of plain values. -/
inductive DatumType
  | key (type : KeyType)
  | float
  | bytes
  /-- An enumeration; its first variant is its zero. -/
  | enumeration (name : String) (variants : List String)
  | timestamp
deriving DecidableEq, Repr

namespace DatumType

def name : DatumType → String
  | key t => t.name
  | float => "f64"
  | bytes => "Vec<u8>"
  | enumeration name _ => name
  | timestamp => "Timestamp"

def zero : DatumType → Datum
  | key t => .key t.zero
  | float => .float .zero
  | bytes => .bytes []
  | enumeration _ variants => .variant (variants.headD "")
  | timestamp => .timestamp 0

end DatumType

namespace Datum

/-- Equality as values: numbers compare as numbers, all else by content. -/
def same : Datum → Datum → Bool
  | float x, float y => x.same y
  | a, b => a == b

/-- No not-a-number pattern and no negative zero: the values on which `same` and `=` agree. -/
def isPlain : Datum → Bool
  | float x => x.isPlain
  | _ => true

/-- Equality of optional values. -/
def sameOption : Option Datum → Option Datum → Bool
  | none, none => true
  | some a, some b => a.same b
  | _, _ => false

end Datum

end VersionedRecords
