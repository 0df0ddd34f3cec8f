import VersionedRecords.Record.Patch

/-!
Finding the change that leads from a reference to a current version.

The current version may be a snapshot or a draft.  In either case the fields are compared one by
one, shared parts are skipped, and what is found for a field goes through an empty accumulator,
which brings the changes of sets and maps into ascending order.

For a sub-record that may be absent the rule is

* absent, absent: nothing;
* absent, present: its creation, that is, an `add` with the difference to a record of zeros;
* present, present with the same identity: an `update` with the difference;
* present, present with another identity: the creation of the new one alone;
* present, absent: its teardown, that is, a `delete` with what leads to a record of zeros.
-/

namespace VersionedRecords

mutual

/-- The deletion of a record, carrying what leads from its content to zeros. -/
def Snapshot.teardown : Snapshot → Option Change
  | ⟨layout, key, _, fields⟩ =>
    Accumulator.gather layout .delete key (Snapshot.teardownFields layout.kinds fields)

def Snapshot.teardownFields : List FieldKind → List (Value Snapshot) →
    List (Option (Payload Change))
  | kind :: kinds, v :: vs => Snapshot.teardownValue kind v :: Snapshot.teardownFields kinds vs
  | _, _ => []

/-- What leads from a value to the zero of its kind. -/
def Snapshot.teardownValue : FieldKind → Value Snapshot → Option (Payload Change)
  | .scalar t, .scalar v => if v.same t.zero then none else some (.scalar t.zero)
  | _, .attached v => if v.isNone then none else some (.attached none)
  | _, .nested (some s) => s.teardown.map .nested
  | _, .keySet _ ms => (nonEmpty? (MemberChange.between ms [])).map .keySet
  | _, .valueMap _ es => (nonEmpty? (EntryChange.between es [])).map .valueMap
  | _, .modelMap _ es => (nonEmpty? (Snapshot.teardownEntries es)).map .modelMap
  | _, _ => none

def Snapshot.teardownEntries : List (Key × Snapshot) → List (RecordEntryChange Change)
  | [] => []
  | (k, s) :: rest =>
    match s.teardown with
    | some c => ⟨.delete, k, c⟩ :: Snapshot.teardownEntries rest
    | none => Snapshot.teardownEntries rest

end

mutual

/-- The change with the given intent that leads from the field values `base` to a snapshot. -/
def Snapshot.diffFrom (intent : Intent) (base : List (Value Snapshot)) : Snapshot → Option Change
  | ⟨layout, key, _, fields⟩ =>
    Accumulator.gather layout intent key (Snapshot.diffFields base fields)

def Snapshot.diffFields : List (Value Snapshot) → List (Value Snapshot) →
    List (Option (Payload Change))
  | r :: rs, v :: vs => Snapshot.diffValue r v :: Snapshot.diffFields rs vs
  | _, _ => []

/-- What leads from one value of a field to another. -/
def Snapshot.diffValue : Value Snapshot → Value Snapshot → Option (Payload Change)
  | .scalar r, .scalar v => if r.same v then none else some (.scalar v)
  | .attached r, .attached v => if Datum.sameOption r v then none else some (.attached v)
  | .nested none, .nested (some s) => (s.diffFrom .add s.layout.zeros).map .nested
  | .nested (some r), .nested (some s) =>
    if r.isShared s then none
    else if r.identity = s.identity then (s.diffFrom .update r.fields).map .nested
    else (s.diffFrom .add s.layout.zeros).map .nested
  | .nested (some r), .nested none => r.teardown.map .nested
  | .keySet o ms, .keySet o' ms' =>
    if o = o' ∧ ms = ms' then none else (nonEmpty? (MemberChange.between ms ms')).map .keySet
  | .valueMap o es, .valueMap o' es' =>
    if o = o' ∧ es = es' then none else (nonEmpty? (EntryChange.between es es')).map .valueMap
  | .modelMap o es, .modelMap o' es' =>
    if o = o' ∧ Snapshot.identicalEntries es es' then none
    else
      (nonEmpty? (Snapshot.teardownEntries (es.filter fun e => !Keyed.has e.1 es')
        ++ Snapshot.diffEntries es es')).map .modelMap
  | _, _ => none

/-- The changes of the entries that are there, given those that were. -/
def Snapshot.diffEntries (reference : List (Key × Snapshot)) :
    List (Key × Snapshot) → List (RecordEntryChange Change)
  | [] => []
  | (k, s) :: rest =>
    let found : Option (RecordEntryChange Change) := match Keyed.find? k reference with
      | none => (s.diffFrom .add s.layout.zeros).map (⟨.add, k, ·⟩)
      | some r =>
        if r.isShared s then none
        else if r.identity = s.identity then (s.diffFrom .update r.fields).map (⟨.update, k, ·⟩)
        else (s.diffFrom .add s.layout.zeros).map (⟨.update, k, ·⟩)
    let later := Snapshot.diffEntries reference rest
    match found with
    | some c => c :: later
    | none => later

end

mutual

/-- The change with the given intent that leads from the field values `base` to the present state of
a draft. -/
def Draft.diffFrom (intent : Intent) (base : List (Value Snapshot)) : Draft → Option Change
  | ⟨layout, key, _, _, slots⟩ =>
    Accumulator.gather layout intent key (Draft.diffSlots base slots)

def Draft.diffSlots : List (Value Snapshot) → List (Slot Snapshot Draft) →
    List (Option (Payload Change))
  | r :: rs, s :: slots => Draft.diffSlot r s :: Draft.diffSlots rs slots
  | _, _ => []

def Draft.diffSlot (reference : Value Snapshot) : Slot Snapshot Draft → Option (Payload Change)
  | .deferred v => Snapshot.diffValue reference v
  | .touched w => Draft.diffWorking reference w

/-- What leads from a value of a field to a working copy.  A working copy shares nothing, and a
draft of a deleted record counts as absent. -/
def Draft.diffWorking : Value Snapshot → Working Draft → Option (Payload Change)
  | .scalar r, .scalar v => if r.same v then none else some (.scalar v)
  | .attached r, .attached v => if Datum.sameOption r v then none else some (.attached v)
  | .nested none, .nested (some d) =>
    if d.isDeleted then none else (d.diffFrom .add d.layout.zeros).map .nested
  | .nested (some r), .nested (some d) =>
    if d.isDeleted then r.teardown.map .nested
    else if r.identity = d.identity then (d.diffFrom .update r.fields).map .nested
    else (d.diffFrom .add d.layout.zeros).map .nested
  | .nested (some r), .nested none => r.teardown.map .nested
  | .keySet _ ms, .keySet ms' => (nonEmpty? (MemberChange.between ms ms')).map .keySet
  | .valueMap _ es, .valueMap es' => (nonEmpty? (EntryChange.between es es')).map .valueMap
  | .modelMap _ es, .modelMap es' =>
    let gone := es.filter fun e => !(Keyed.find? e.1 es').any fun d => !d.isDeleted
    (nonEmpty? (Snapshot.teardownEntries gone ++ Draft.diffEntries es es')).map .modelMap
  | _, _ => none

/-- The changes of the entries that are there and not deleted, given those that were. -/
def Draft.diffEntries (reference : List (Key × Snapshot)) :
    List (Key × Draft) → List (RecordEntryChange Change)
  | [] => []
  | (k, d) :: rest =>
    let found : Option (RecordEntryChange Change) :=
      if d.isDeleted then none
      else match Keyed.find? k reference with
        | none => (d.diffFrom .add d.layout.zeros).map (⟨.add, k, ·⟩)
        | some r =>
          if r.identity = d.identity then (d.diffFrom .update r.fields).map (⟨.update, k, ·⟩)
          else (d.diffFrom .add d.layout.zeros).map (⟨.update, k, ·⟩)
    let later := Draft.diffEntries reference rest
    match found with
    | some c => c :: later
    | none => later

end

namespace RecordEntryChange

/-- The changes that lead from one map of snapshots to another: first the entries that are gone,
then those that are new or differ, each part in ascending order. -/
def between (reference current : List (Key × Snapshot)) : List (RecordEntryChange Change) :=
  Snapshot.teardownEntries (reference.filter fun e => !Keyed.has e.1 current)
    ++ Snapshot.diffEntries reference current

/-- The changes that lead from a map of snapshots to a map of drafts, in the same order. -/
def betweenDrafts (reference : List (Key × Snapshot)) (current : List (Key × Draft)) :
    List (RecordEntryChange Change) :=
  Snapshot.teardownEntries
      (reference.filter fun e => !(Keyed.find? e.1 current).any fun d => !d.isDeleted)
    ++ Draft.diffEntries reference current

end RecordEntryChange

namespace Slot

/-- What leads from a value to a slot. -/
def diff (s : Slot Snapshot Draft) (reference : Value Snapshot) : Option (Payload Change) :=
  Draft.diffSlot reference s

end Slot

namespace Snapshot

/-- A version described as a change: its full content for `add` and `update`, its teardown for
`delete`. -/
def toChange (s : Snapshot) : Intent → Option Change
  | .delete => s.teardown
  | intent => s.diffFrom intent s.layout.zeros

/-- The change of an optional sub-record, both sides given as snapshots. -/
def fieldChange? (reference current : Option Snapshot) : Option Change :=
  match diffValue (.nested reference) (.nested current) with
  | some (.nested c) => some c
  | _ => none

end Snapshot

namespace Draft

/-- The change of an optional sub-record whose current side is a draft. -/
def fieldChange? (reference : Option Snapshot) (current : Option Draft) : Option Change :=
  match diffWorking (.nested reference) (.nested current) with
  | some (.nested c) => some c
  | _ => none

/-- The working copy of an optional sub-record after a change of it. -/
def applyField (c : Change) (target : Option Draft) : Option Draft :=
  match Change.applyPayload (.nested c) (.nested target) with
  | .nested d => d
  | _ => none

/-- Merges into an accumulator every difference between a reference and the draft. -/
def diffInto (d : Draft) (a : Accumulator) (reference : Snapshot) :
    Except IdentityMismatch Accumulator := do
  requireSameKey .reconcile d.key a.key
  requireSameKey .reconcile d.key reference.key
  return { a with fields := Accumulator.absorbFields (diffSlots reference.fields d.slots) a.fields }

/-- The change with the given intent that leads from a reference to the draft. -/
def diffAgainst (d : Draft) (intent : Intent) (reference : Snapshot) :
    Except IdentityMismatch (Option Change) := do
  requireSameKey .reconcile d.key reference.key
  return d.diffFrom intent reference.fields

/-- The intent that describes what has become of the draft's own reference. -/
def ownIntent (d : Draft) : Intent :=
  if d.isDeleted then .delete else if d.reference.isNone then .add else .update

/-- The change that leads from the draft's own reference, or from zeros, to the draft. -/
def diff (d : Draft) : Option Change :=
  d.diffFrom d.ownIntent (match d.reference with
    | some r => r.fields
    | none => d.layout.zeros)

/-- The present state of a draft described as a change. -/
def toChange (d : Draft) : Intent → Option Change
  | .delete =>
    match d.buildsReference, d.reference with
    | true, some r => r.teardown
    | _, _ => ((d.build 0).getD (d.buildEmpty 0)).teardown
  | intent => d.diffFrom intent d.layout.zeros

end Draft

end VersionedRecords
