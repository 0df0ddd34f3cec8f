import VersionedRecords.Record.Notices

/-!
Journals collect changes of many orders, so that a batch of edits is sent as one change for each
order.
-/

namespace VersionedRecords.Orders

/-- The changes of each order merged so far. -/
structure Journal where
  pending : Keyed Accumulator

namespace Journal

def empty : Journal := ⟨[]⟩

def size (j : Journal) : Nat := j.pending.length

def isEmpty (j : Journal) : Bool := j.pending.isEmpty

/-- Merges a change into what is pending for its order. -/
def record (j : Journal) (c : Change) : Except IdentityMismatch Journal :=
  match Keyed.find? c.key j.pending with
  | some a => do
    let a ← a.add c
    return ⟨Keyed.insert c.key a j.pending⟩
  | none => .ok ⟨Keyed.insert c.key (.ofChange c) j.pending⟩

/-- The notices of `record`. -/
def recordNotices (j : Journal) (c : Change) : List Notice :=
  match Keyed.find? c.key j.pending with
  | some a => a.addNotices c
  | none => []

/-- The merged changes, one for each order with something left to say.  The journal is empty after
that. -/
def drain (j : Journal) : List Change × Journal :=
  (j.pending.filterMap fun e => e.2.build, empty)

end Journal

end VersionedRecords.Orders
