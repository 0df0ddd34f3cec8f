/-!
What a change means to do with the thing it is about, and how the intents of successive changes
combine.
-/

namespace VersionedRecords

/-- What a change does to a record, to a member of a set or to an entry of a map.  After `add` and
`update` the thing is there; they differ in whether it was there before. -/
inductive Intent
  | add
  | update
  | delete
deriving DecidableEq, Repr, Inhabited

namespace Intent

def all : List Intent := [add, update, delete]

/-- The name under which an intent is written down. -/
def name : Intent → String
  | add => "ADD"
  | update => "UPDATE"
  | delete => "DELETE"

/-- The intent with a given name. -/
def ofName? (s : String) : Option Intent := all.find? fun i => i.name == s

/-- The name by which an intent is inspected. -/
def inspect : Intent → String
  | add => "Add"
  | update => "Update"
  | delete => "Delete"

def isDelete (i : Intent) : Bool := i == delete

/-- Intents are ordered as they are listed. -/
def rank : Intent → Nat
  | add => 0
  | update => 1
  | delete => 2

def compare (i j : Intent) : Ordering := Ord.compare i.rank j.rank

theorem ofName?_name (i : Intent) : ofName? i.name = some i := by cases i <;> decide

end Intent

/-- The intent of a change that is still being put together: the one it began with and the one it
has now. -/
structure IntentState where
  initial : Intent
  current : Intent
deriving DecidableEq, Repr

namespace IntentState

/-- A state that begins with an intent. -/
def start (i : Intent) : IntentState := ⟨i, i⟩

def set (s : IntentState) (i : Intent) : IntentState := { s with current := i }

/-- Back to the intent of the beginning.  What began as a deletion comes back as an update: the
thing existed before, and it is there again. -/
def reset (s : IntentState) : IntentState :=
  { s with current := if s.initial = .delete then .update else s.initial }

/-- Takes in the intent of a later change.  A deletion stands as it is, anything else restores the
intent of the beginning. -/
def absorb (s : IntentState) (incoming : Intent) : IntentState :=
  if incoming = .delete then s.set .delete else (s.set incoming).reset

@[simp] theorem initial_absorb (s : IntentState) (i : Intent) :
    (s.absorb i).initial = s.initial := by
  unfold absorb; split <;> rfl

theorem current_absorb (s : IntentState) (i : Intent) :
    (s.absorb i).current =
      if i = .delete then .delete else if s.initial = .delete then .update else s.initial := by
  unfold absorb; split <;> rfl

/-- Only a deletion makes the state one of deletion. -/
theorem current_absorb_eq_delete_iff (s : IntentState) (i : Intent) :
    (s.absorb i).current = .delete ↔ i = .delete := by
  rw [current_absorb]
  cases i <;> cases h : s.initial <;> simp

end IntentState

end VersionedRecords
