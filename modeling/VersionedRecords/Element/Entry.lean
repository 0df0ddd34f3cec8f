import VersionedRecords.Datum
import VersionedRecords.Element.Member

/-!
Changes of maps to plain values, entry by entry: finding them, applying them and merging them.
-/

namespace VersionedRecords

/-- The change of one entry.  A deletion carries no value. -/
structure EntryChange where
  intent : Intent
  key : Key
  value : Option Datum
deriving DecidableEq, Repr

/-- What has been merged so far for one entry: the intent, and the value that came last. -/
structure EntryState where
  state : IntentState
  value : Option Datum
deriving DecidableEq, Repr

namespace EntryState

def start (c : EntryChange) : EntryState := ⟨.start c.intent, c.value⟩

def absorb (s : EntryState) (c : EntryChange) : EntryState := ⟨s.state.absorb c.intent, c.value⟩

def build (s : EntryState) (key : Key) : EntryChange := ⟨s.state.current, key, s.value⟩

end EntryState

namespace EntryChange

/-- What has become of one entry of the current map, if anything. -/
def ofPair? (reference : Keyed Datum) (e : Key × Datum) : Option EntryChange :=
  match Keyed.find? e.1 reference with
  | none => some ⟨.add, e.1, some e.2⟩
  | some previous => if previous.same e.2 then none else some ⟨.update, e.1, some e.2⟩

/-- The changes that lead from one map to another: first the entries that are gone, then those that
are new or have another value, each part in ascending order. -/
def between (reference current : Keyed Datum) : List EntryChange :=
  (reference.filter fun e => !Keyed.has e.1 current).map (fun e => ⟨.delete, e.1, none⟩)
    ++ current.filterMap (ofPair? reference)

/-- The map after one change.  A change that should set an entry but brings no value is passed over,
and an entry that has the value already keeps it. -/
def applyTo (c : EntryChange) (target : Keyed Datum) : Keyed Datum :=
  if c.intent = .delete then Keyed.erase c.key target
  else match c.value with
    | none => target
    | some v =>
      if Datum.sameOption (Keyed.find? c.key target) (some v) then target
      else Keyed.insert c.key v target

/-- The map after several changes in order. -/
def applyAll (changes : List EntryChange) (target : Keyed Datum) : Keyed Datum :=
  changes.foldl (fun m c => c.applyTo m) target

/-- Merges a change into those already collected, one per entry. -/
def mergeInto (c : EntryChange) (pending : Keyed EntryState) : Keyed EntryState :=
  match Keyed.find? c.key pending with
  | some s => Keyed.insert c.key (s.absorb c) pending
  | none => Keyed.insert c.key (.start c) pending

/-- Merges several changes in order. -/
def mergeAll (changes : List EntryChange) (pending : Keyed EntryState) : Keyed EntryState :=
  changes.foldl (fun p c => c.mergeInto p) pending

/-- Collects changes without merging: of several for one entry the last stands. -/
def collect (changes : List EntryChange) : Keyed EntryState :=
  Keyed.ofList (changes.map fun c => (c.key, .start c))

/-- The collected changes, one per entry in ascending order. -/
def settle (pending : Keyed EntryState) : List EntryChange :=
  pending.map fun e => e.2.build e.1

/-- Equality as values, numbers as numbers. -/
def same (c d : EntryChange) : Bool :=
  c.intent == d.intent && c.key == d.key && Datum.sameOption c.value d.value

/-- The notices of applying one change. -/
def applyNotices (c : EntryChange) : List Notice :=
  if c.intent ≠ .delete ∧ c.value = none then [.skippedValueless c.key] else []

/-- The notices of applying several changes. -/
def applyAllNotices (changes : List EntryChange) : List Notice := changes.flatMap applyNotices

/-- The notices of merging one change. -/
def mergeNotices (c : EntryChange) (pending : Keyed EntryState) : List Notice :=
  match Keyed.find? c.key pending with
  | some s => [MemberChange.absorbNotice s.state c.intent]
  | none => []

/-- The notices of merging several changes in order. -/
def mergeAllNotices : List EntryChange → Keyed EntryState → List Notice
  | [], _ => []
  | c :: rest, pending => c.mergeNotices pending ++ mergeAllNotices rest (c.mergeInto pending)

/-- The notice of comparing two maps. -/
def betweenNotice (reference current : Keyed Datum) : Notice :=
  .compared .valueMap (between reference current).length

end EntryChange

/-- The merged changes of one entry. -/
structure EntryAccumulator where
  state : IntentState
  key : Key
  value : Option Datum
deriving DecidableEq, Repr

namespace EntryAccumulator

/-- The accumulator that begins with one change. -/
def ofChange (c : EntryChange) : EntryAccumulator := ⟨.start c.intent, c.key, c.value⟩

def setIntent (a : EntryAccumulator) (i : Intent) : EntryAccumulator :=
  { a with state := a.state.set i }

def resetIntent (a : EntryAccumulator) : EntryAccumulator := { a with state := a.state.reset }

/-- Merges a later change of the same entry; its value replaces the one before. -/
def add (a : EntryAccumulator) (c : EntryChange) : Except IdentityMismatch EntryAccumulator := do
  requireSameKey .merge a.key c.key
  return { a with state := a.state.absorb c.intent, value := c.value }

def build (a : EntryAccumulator) : EntryChange := ⟨a.state.current, a.key, a.value⟩

/-- The notices of `add`. -/
def addNotices (a : EntryAccumulator) (c : EntryChange) : List Notice :=
  match a.add c with
  | .ok _ => [MemberChange.absorbNotice a.state c.intent]
  | .error e => [.identityMismatch e]

end EntryAccumulator

namespace Datum

/-- The change of a plain optional value: nothing if both are the same, else the update to the
current value. -/
def change? (reference current : Option Datum) : Option (Intent × Option Datum) :=
  if sameOption reference current then none else some (.update, current)

end Datum

end VersionedRecords
