import VersionedRecords.Keyed
import VersionedRecords.Layout

/-!
Snapshots: immutable versions of a record.

Versions of a record share what did not change between them, and a shared part is known to be equal
without looking inside.  That matters for floating-point numbers, which need not equal themselves: a
shared part with such a number in it counts as unchanged, a copy of it does not.  So every snapshot
and every collection in one carries its `Origin`, the place where it was put together, and
`isShared` asks for the same origin as well as the same content.
-/

namespace VersionedRecords

/-- Where a part was put together: which act of building made it, and at which place below the
record that was built. -/
structure Origin where
  stamp : Nat
  path : List Nat
deriving DecidableEq, Repr

/-- The origin of parts that were never built, such as the zero values. -/
def Origin.zero : Origin := ⟨0, []⟩

/-- The value of one field of a snapshot; `σ` is the type of sub-records. -/
inductive Value (σ : Type)
  | scalar (value : Datum)
  | attached (value : Option Datum)
  | nested (record : Option σ)
  | keySet (origin : Origin) (members : List Key)
  | valueMap (origin : Origin) (entries : List (Key × Datum))
  | modelMap (origin : Origin) (entries : List (Key × σ))

/-- The value a field of the given kind has at first. -/
def Value.zero {σ : Type} : FieldKind → Value σ
  | .scalar t => .scalar t.zero
  | .attached _ => .attached none
  | .nested _ => .nested none
  | .keySet _ => .keySet .zero []
  | .valueMap _ _ => .valueMap .zero []
  | .modelMap _ _ => .modelMap .zero []

/-- One version of a record. -/
structure Snapshot where
  layout : Layout
  key : Key
  origin : Origin
  /-- The values of the fields, in the order of the layout. -/
  fields : List (Value Snapshot)

/-- What makes two versions versions of the same record: the kind of record and the key. -/
structure Identity where
  layout : Layout
  key : Key
deriving DecidableEq

/-- The values that the fields of a layout have at first. -/
def Layout.zeros (l : Layout) : List (Value Snapshot) := l.kinds.map Value.zero

namespace Snapshot

def identity (s : Snapshot) : Identity := ⟨s.layout, s.key⟩

/-- The version of a record in which every field has its zero value. -/
def empty (layout : Layout) (key : Key) (origin : Origin) : Snapshot :=
  ⟨layout, key, origin, layout.zeros⟩

/-- The value of a field, by its name. -/
def field? (s : Snapshot) (name : String) : Option (Value Snapshot) :=
  s.layout.indexOf? name >>= fun i => s.fields[i]?

mutual

/-- Equality in every respect, origins included. -/
def identical : Snapshot → Snapshot → Bool
  | ⟨l, k, o, fs⟩, ⟨l', k', o', fs'⟩ => o == o' && k == k' && l == l' && identicalFields fs fs'

def identicalFields : List (Value Snapshot) → List (Value Snapshot) → Bool
  | [], [] => true
  | v :: vs, w :: ws => identicalValue v w && identicalFields vs ws
  | _, _ => false

def identicalValue : Value Snapshot → Value Snapshot → Bool
  | .scalar v, .scalar w => v == w
  | .attached v, .attached w => v == w
  | .nested none, .nested none => true
  | .nested (some s), .nested (some t) => identical s t
  | .keySet o ms, .keySet o' ms' => o == o' && ms == ms'
  | .valueMap o es, .valueMap o' es' => o == o' && es == es'
  | .modelMap o es, .modelMap o' es' => o == o' && identicalEntries es es'
  | _, _ => false

def identicalEntries : List (Key × Snapshot) → List (Key × Snapshot) → Bool
  | [], [] => true
  | (k, s) :: es, (k', s') :: es' => k == k' && identical s s' && identicalEntries es es'
  | _, _ => false

end

mutual

/-- Equality of content: numbers compare as numbers, and origins do not count. -/
def same : Snapshot → Snapshot → Bool
  | ⟨l, k, _, fs⟩, ⟨l', k', _, fs'⟩ => k == k' && l == l' && sameFields fs fs'

def sameFields : List (Value Snapshot) → List (Value Snapshot) → Bool
  | [], [] => true
  | v :: vs, w :: ws => sameValue v w && sameFields vs ws
  | _, _ => false

def sameValue : Value Snapshot → Value Snapshot → Bool
  | .scalar v, .scalar w => v.same w
  | .attached v, .attached w => Datum.sameOption v w
  | .nested none, .nested none => true
  | .nested (some s), .nested (some t) => same s t
  | .keySet _ ms, .keySet _ ms' => ms == ms'
  | .valueMap _ es, .valueMap _ es' => samePairs es es'
  | .modelMap _ es, .modelMap _ es' => sameEntries es es'
  | _, _ => false

def sameEntries : List (Key × Snapshot) → List (Key × Snapshot) → Bool
  | [], [] => true
  | (k, s) :: es, (k', s') :: es' => k == k' && same s s' && sameEntries es es'
  | _, _ => false

def samePairs : List (Key × Datum) → List (Key × Datum) → Bool
  | [], [] => true
  | (k, v) :: es, (k', v') :: es' => k == k' && v.same v' && samePairs es es'
  | _, _ => false

end

/-- Whether two snapshots are one and the same part. -/
def isShared (s t : Snapshot) : Bool := s.origin == t.origin && identical s t

mutual

/-- The content alone, every origin forgotten. -/
def bare : Snapshot → Snapshot
  | ⟨l, k, _, fs⟩ => ⟨l, k, .zero, bareFields fs⟩

def bareFields : List (Value Snapshot) → List (Value Snapshot)
  | [] => []
  | v :: vs => bareValue v :: bareFields vs

def bareValue : Value Snapshot → Value Snapshot
  | .scalar v => .scalar v
  | .attached v => .attached v
  | .nested none => .nested none
  | .nested (some s) => .nested (some (bare s))
  | .keySet _ ms => .keySet .zero ms
  | .valueMap _ es => .valueMap .zero es
  | .modelMap _ es => .modelMap .zero (bareEntries es)

def bareEntries : List (Key × Snapshot) → List (Key × Snapshot)
  | [] => []
  | (k, s) :: es => (k, bare s) :: bareEntries es

end

mutual

/-- No not-a-number pattern and no negative zero anywhere: on such snapshots `same` is equality of
the bare contents. -/
def isPlain : Snapshot → Bool
  | ⟨_, _, _, fs⟩ => plainFields fs

def plainFields : List (Value Snapshot) → Bool
  | [] => true
  | v :: vs => plainValue v && plainFields vs

def plainValue : Value Snapshot → Bool
  | .scalar v => v.isPlain
  | .attached v => v.all Datum.isPlain
  | .nested none => true
  | .nested (some s) => isPlain s
  | .keySet _ _ => true
  | .valueMap _ es => es.all fun e => e.2.isPlain
  | .modelMap _ es => plainEntries es

def plainEntries : List (Key × Snapshot) → Bool
  | [] => true
  | (_, s) :: es => isPlain s && plainEntries es

end

end Snapshot

namespace Value

/-- Whether two collections are one and the same part; other values are never shared on their own.
-/
def isShared : Value Snapshot → Value Snapshot → Bool
  | .keySet o ms, .keySet o' ms' => o == o' && ms == ms'
  | .valueMap o es, .valueMap o' es' => o == o' && es == es'
  | .modelMap o es, .modelMap o' es' => o == o' && Snapshot.identicalEntries es es'
  | _, _ => false

end Value

end VersionedRecords
