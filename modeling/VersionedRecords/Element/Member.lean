import VersionedRecords.Keyed
import VersionedRecords.Notice

/-!
Changes of sets, member by member: finding them, applying them and merging them.
-/

namespace VersionedRecords

/-- A member that joins or leaves a set. -/
structure MemberChange where
  intent : Intent
  key : Key
deriving DecidableEq, Repr

namespace MemberChange

/-- The changes that lead from one set to another: first the members that leave, then those that
join, each in ascending order. -/
def between (reference current : List Key) : List MemberChange :=
  (reference.filter fun k => !current.contains k).map (⟨.delete, ·⟩)
    ++ (current.filter fun k => !reference.contains k).map (⟨.add, ·⟩)

/-- The set after one change.  A member that is there already stays, one that is missing is not
missed. -/
def applyTo (c : MemberChange) (target : List Key) : List Key :=
  if c.intent = .delete then KeySet.erase c.key target
  else if target.contains c.key then target
  else KeySet.insert c.key target

/-- The set after several changes in order. -/
def applyAll (changes : List MemberChange) (target : List Key) : List Key :=
  changes.foldl (fun s c => c.applyTo s) target

/-- Merges a change into those already collected, one per member. -/
def mergeInto (c : MemberChange) (pending : Keyed IntentState) : Keyed IntentState :=
  match Keyed.find? c.key pending with
  | some s => Keyed.insert c.key (s.absorb c.intent) pending
  | none => Keyed.insert c.key (.start c.intent) pending

/-- Merges several changes in order. -/
def mergeAll (changes : List MemberChange) (pending : Keyed IntentState) : Keyed IntentState :=
  changes.foldl (fun p c => c.mergeInto p) pending

/-- Collects changes without merging: of several for one member the last stands. -/
def collect (changes : List MemberChange) : Keyed IntentState :=
  Keyed.ofList (changes.map fun c => (c.key, .start c.intent))

/-- The collected changes, one per member in ascending order. -/
def settle (pending : Keyed IntentState) : List MemberChange :=
  pending.map fun e => ⟨e.2.current, e.1⟩

/-- The notice of taking in a further intent. -/
def absorbNotice (s : IntentState) (incoming : Intent) : Notice :=
  .absorbedIntent s.current incoming (s.absorb incoming).current

/-- The notices of merging one change. -/
def mergeNotices (c : MemberChange) (pending : Keyed IntentState) : List Notice :=
  match Keyed.find? c.key pending with
  | some s => [absorbNotice s c.intent]
  | none => []

/-- The notices of merging several changes in order. -/
def mergeAllNotices : List MemberChange → Keyed IntentState → List Notice
  | [], _ => []
  | c :: rest, pending => c.mergeNotices pending ++ mergeAllNotices rest (c.mergeInto pending)

/-- The notice of comparing two sets. -/
def betweenNotice (reference current : List Key) : Notice :=
  .compared .keySet (between reference current).length

end MemberChange

/-- The merged changes of one member. -/
structure MemberAccumulator where
  state : IntentState
  key : Key
deriving DecidableEq, Repr

namespace MemberAccumulator

/-- The accumulator that begins with one change. -/
def ofChange (c : MemberChange) : MemberAccumulator := ⟨.start c.intent, c.key⟩

def setIntent (a : MemberAccumulator) (i : Intent) : MemberAccumulator :=
  { a with state := a.state.set i }

def resetIntent (a : MemberAccumulator) : MemberAccumulator := { a with state := a.state.reset }

/-- Merges a later change of the same member. -/
def add (a : MemberAccumulator) (c : MemberChange) : Except IdentityMismatch MemberAccumulator := do
  requireSameKey .merge a.key c.key
  return { a with state := a.state.absorb c.intent }

def build (a : MemberAccumulator) : MemberChange := ⟨a.state.current, a.key⟩

/-- The notices of `add`. -/
def addNotices (a : MemberAccumulator) (c : MemberChange) : List Notice :=
  match a.add c with
  | .ok _ => [MemberChange.absorbNotice a.state c.intent]
  | .error e => [.identityMismatch e]

end MemberAccumulator

end VersionedRecords
