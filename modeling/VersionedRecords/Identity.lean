import VersionedRecords.Key.Inspect

/-!
The one way in which combining changes can go wrong: two things that should be about the same record
carry different keys.
-/

namespace VersionedRecords

/-- The operations that insist on equal identities. -/
inductive KeyedOperation
  | apply
  | reconcile
  | merge
deriving DecidableEq, Repr

def KeyedOperation.name : KeyedOperation → String
  | apply => "apply_delta"
  | reconcile => "reconcile"
  | merge => "add_delta"

/-- An operation was given the key `found` where it needed the key `expected`. -/
structure IdentityMismatch where
  operation : KeyedOperation
  expected : Key
  found : Key
deriving DecidableEq, Repr

namespace IdentityMismatch

/-- The kind of failure, as reported beside its message. -/
def kind : String := "IdentityMismatch"

def message (e : IdentityMismatch) : String :=
  "identity mismatch in " ++ e.operation.name ++ ": expected key " ++ e.expected.inspect
    ++ ", found " ++ e.found.inspect

end IdentityMismatch

/-- Succeeds when both keys are equal. -/
def requireSameKey (operation : KeyedOperation) (expected found : Key) :
    Except IdentityMismatch Unit :=
  if expected = found then .ok () else .error ⟨operation, expected, found⟩

theorem requireSameKey_eq_ok_iff {operation : KeyedOperation} {expected found : Key} :
    requireSameKey operation expected found = .ok () ↔ expected = found := by
  unfold requireSameKey; split <;> simp_all

end VersionedRecords
