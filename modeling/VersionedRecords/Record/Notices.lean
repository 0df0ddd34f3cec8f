import VersionedRecords.Record.Diff
import VersionedRecords.Record.Edit

/-!
The notices of applying, comparing and merging.  Each function here goes the way of the operation it
speaks about and tells what happens there, in the order in which it happens; the operations
themselves know nothing of notices.
-/

namespace VersionedRecords

/-- The notice of a refusal. -/
def IdentityMismatch.notice (e : IdentityMismatch) : Notice := .identityMismatch e

/-- The notices of an operation that may be refused. -/
def refusalNotices {α : Type} : Except IdentityMismatch α → List Notice
  | .ok _ => []
  | .error e => [e.notice]

namespace Change

mutual

/-- The notices of `applyTo`. -/
def applyNotices : Change → Draft → List Notice
  | ⟨_, intent, _, fields⟩, d =>
    if intent = .delete then [.appliedDelete d.layout.name d.key]
    else applyFieldsNotices fields d.slots

def applyFieldsNotices : List (Option (Payload Change)) → List (Slot Snapshot Draft) → List Notice
  | none :: payloads, _ :: slots => applyFieldsNotices payloads slots
  | some p :: payloads, s :: slots =>
    applyPayloadNotices p s.working ++ applyFieldsNotices payloads slots
  | _, _ => []

/-- The notices of `applyPayload`. -/
def applyPayloadNotices : Payload Change → Working Draft → List Notice
  | .nested c, .nested (some d) =>
    if c.intent ≠ .add ∧ d.identity = c.identity then applyNotices c d
    else applyNotices c (.new c.layout c.key)
  | .nested c, _ => applyNotices c (.new c.layout c.key)
  | .valueMap cs, _ => EntryChange.applyAllNotices cs
  | .modelMap cs, .modelMap es => applyEntriesNotices cs es
  | _, _ => []

/-- The notices of `applyEntries`. -/
def applyEntriesNotices : List (RecordEntryChange Change) → List (Key × Draft) → List Notice
  | [], _ => []
  | ⟨intent, key, c⟩ :: rest, es =>
    (if intent = .delete then []
      else match Keyed.find? key es with
        | some d =>
          if c.intent ≠ .add ∧ d.identity = c.identity then applyNotices c d
          else applyNotices c (.new c.layout c.key)
        | none => applyNotices c (.new c.layout c.key))
      ++ applyEntriesNotices rest (applyEntries [⟨intent, key, c⟩] es)

end

/-- The notices of `toDraft`. -/
def toDraftNotices (c : Change) : List Notice := c.applyNotices (.new c.layout c.key)

end Change

namespace Draft

/-- The notices of `apply`. -/
def applyNotices (d : Draft) (c : Change) : List Notice :=
  match d.apply c with
  | .ok _ => c.applyNotices d
  | .error e => [e.notice]

/-- The notices of `applyField`. -/
def applyFieldNotices (c : Change) (target : Option Draft) : List Notice :=
  Change.applyPayloadNotices (.nested c) (.nested target)

end Draft

namespace Accumulator

mutual

/-- The notices of `absorb`. -/
def absorbNotices : Change → Accumulator → List Notice
  | ⟨_, intent, _, fields⟩, a =>
    MemberChange.absorbNotice a.state intent :: absorbFieldsNotices fields a.fields

def absorbFieldsNotices : List (Option (Payload Change)) → List (Pending Accumulator) → List Notice
  | none :: payloads, _ :: qs => absorbFieldsNotices payloads qs
  | some p :: payloads, q :: qs => absorbPayloadNotices p q ++ absorbFieldsNotices payloads qs
  | _, _ => []

/-- The notices of `absorbPayload`. -/
def absorbPayloadNotices : Payload Change → Pending Accumulator → List Notice
  | .nested c, .nested (some a) =>
    if c.intent = .update ∧ a.identity = c.identity then absorbNotices c a else []
  | .keySet cs, .keySet pending => MemberChange.mergeAllNotices cs pending
  | .valueMap cs, .valueMap pending => EntryChange.mergeAllNotices cs pending
  | .modelMap cs, .modelMap pending => absorbEntriesNotices cs pending
  | _, _ => []

/-- The notices of `absorbEntries`. -/
def absorbEntriesNotices : List (RecordEntryChange Change) →
    List (Key × RecordEntryState Accumulator) → List Notice
  | [], _ => []
  | ⟨intent, key, change⟩ :: rest, pending =>
    (match Keyed.find? key pending with
      | some ⟨state, a⟩ =>
        MemberChange.absorbNotice state intent ::
          (if change.intent = .update ∧ a.identity = change.identity then absorbNotices change a
            else [])
      | none => [])
      ++ absorbEntriesNotices rest (absorbEntries [⟨intent, key, change⟩] pending)

end

/-- The notices of `add`. -/
def addNotices (a : Accumulator) (c : Change) : List Notice :=
  match a.add c with
  | .ok _ => absorbNotices c a
  | .error e => [e.notice]

/-- The notices of `addField`. -/
def addFieldNotices (a : Accumulator) (index : Nat) (p : Payload Change) : List Notice :=
  match a.fields[index]? with
  | some q => absorbPayloadNotices p q
  | none => []

end Accumulator

/-- The notices of `RecordEntryAccumulator.add`. -/
def RecordEntryAccumulator.addNotices (a : RecordEntryAccumulator) (c : RecordEntryChange Change) :
    List Notice :=
  match a.add c with
  | .error e => [e.notice]
  | .ok _ =>
    MemberChange.absorbNotice a.state.state c.intent ::
      (if c.change.intent = .update ∧ a.state.pending.identity = c.change.identity then
        Accumulator.absorbNotices c.change a.state.pending
      else [])

namespace Snapshot

mutual

/-- The notices of `teardown`. -/
def teardownNotices : Snapshot → List Notice
  | ⟨_, _, _, fields⟩ => teardownFieldsNotices fields

def teardownFieldsNotices : List (Value Snapshot) → List Notice
  | [] => []
  | v :: vs => teardownValueNotices v ++ teardownFieldsNotices vs

def teardownValueNotices : Value Snapshot → List Notice
  | .nested (some s) => teardownNotices s
  | .keySet _ ms => [MemberChange.betweenNotice ms []]
  | .valueMap _ es => [EntryChange.betweenNotice es []]
  | .modelMap _ es =>
    teardownEntriesNotices es ++ [.compared .draftMap (teardownEntries es).length]
  | _ => []

def teardownEntriesNotices : List (Key × Snapshot) → List Notice
  | [] => []
  | (_, s) :: rest => teardownNotices s ++ teardownEntriesNotices rest

end

mutual

/-- The notices of `diffFrom`. -/
def diffNotices (base : List (Value Snapshot)) : Snapshot → List Notice
  | ⟨_, _, _, fields⟩ => diffFieldsNotices base fields

def diffFieldsNotices : List (Value Snapshot) → List (Value Snapshot) → List Notice
  | r :: rs, v :: vs => diffValueNotices r v ++ diffFieldsNotices rs vs
  | _, _ => []

/-- The notices of `diffValue`. -/
def diffValueNotices : Value Snapshot → Value Snapshot → List Notice
  | .nested none, .nested (some s) => diffNotices s.layout.zeros s
  | .nested (some r), .nested (some s) =>
    if r.isShared s then []
    else if r.identity = s.identity then diffNotices r.fields s
    else .replacedNested false r.key s.key :: diffNotices s.layout.zeros s
  | .nested (some r), .nested none => r.teardownNotices
  | .keySet o ms, .keySet o' ms' =>
    if o = o' ∧ ms = ms' then [] else [MemberChange.betweenNotice ms ms']
  | .valueMap o es, .valueMap o' es' =>
    if o = o' ∧ es = es' then [] else [EntryChange.betweenNotice es es']
  | .modelMap o es, .modelMap o' es' =>
    if o = o' ∧ identicalEntries es es' then []
    else
      teardownEntriesNotices (es.filter fun e => !Keyed.has e.1 es') ++ diffEntriesNotices es es'
        ++ [.compared .modelMap (RecordEntryChange.between es es').length]
  | _, _ => []

/-- The notices of `diffEntries`. -/
def diffEntriesNotices (reference : List (Key × Snapshot)) : List (Key × Snapshot) → List Notice
  | [] => []
  | (k, s) :: rest =>
    (match Keyed.find? k reference with
      | none => diffNotices s.layout.zeros s
      | some r =>
        if r.isShared s then []
        else if r.identity = s.identity then diffNotices r.fields s
        else .replacedNested false r.key s.key :: diffNotices s.layout.zeros s)
      ++ diffEntriesNotices reference rest

end

/-- The notices of `toChange`. -/
def toChangeNotices (s : Snapshot) : Intent → List Notice
  | .delete => s.teardownNotices
  | _ => s.diffNotices s.layout.zeros

/-- The notices of `fieldChange?`. -/
def fieldChangeNotices (reference current : Option Snapshot) : List Notice :=
  diffValueNotices (.nested reference) (.nested current)

end Snapshot

namespace Draft

mutual

/-- The notices of `diffFrom`. -/
def diffNotices (base : List (Value Snapshot)) : Draft → List Notice
  | ⟨_, _, _, _, slots⟩ => diffSlotsNotices base slots

def diffSlotsNotices : List (Value Snapshot) → List (Slot Snapshot Draft) → List Notice
  | r :: rs, s :: slots => diffSlotNotices r s ++ diffSlotsNotices rs slots
  | _, _ => []

/-- The notices of `diffSlot`. -/
def diffSlotNotices (reference : Value Snapshot) : Slot Snapshot Draft → List Notice
  | .deferred v => Snapshot.diffValueNotices reference v
  | .touched w => diffWorkingNotices reference w

/-- The notices of `diffWorking`. -/
def diffWorkingNotices : Value Snapshot → Working Draft → List Notice
  | .nested none, .nested (some d) => if d.isDeleted then [] else diffNotices d.layout.zeros d
  | .nested (some r), .nested (some d) =>
    if d.isDeleted then r.teardownNotices
    else if r.identity = d.identity then diffNotices r.fields d
    else .replacedNested true r.key d.key :: diffNotices d.layout.zeros d
  | .nested (some r), .nested none => r.teardownNotices
  | .keySet _ ms, .keySet ms' => [MemberChange.betweenNotice ms ms']
  | .valueMap _ es, .valueMap es' => [EntryChange.betweenNotice es es']
  | .modelMap _ es, .modelMap es' =>
    Snapshot.teardownEntriesNotices
        (es.filter fun e => !(Keyed.find? e.1 es').any fun d => !d.isDeleted)
      ++ diffEntriesNotices es es'
      ++ [.compared .draftMap (RecordEntryChange.betweenDrafts es es').length]
  | _, _ => []

/-- The notices of `diffEntries`. -/
def diffEntriesNotices (reference : List (Key × Snapshot)) : List (Key × Draft) → List Notice
  | [] => []
  | (k, d) :: rest =>
    (if d.isDeleted then []
      else match Keyed.find? k reference with
        | none => diffNotices d.layout.zeros d
        | some r =>
          if r.identity = d.identity then diffNotices r.fields d
          else .replacedNested true r.key d.key :: diffNotices d.layout.zeros d)
      ++ diffEntriesNotices reference rest

end

/-- The notices of `fieldChange?`. -/
def fieldChangeNotices (reference : Option Snapshot) (current : Option Draft) : List Notice :=
  diffWorkingNotices (.nested reference) (.nested current)

/-- The notices of `diffAgainst`. -/
def diffAgainstNotices (d : Draft) (intent : Intent) (reference : Snapshot) : List Notice :=
  match d.diffAgainst intent reference with
  | .ok _ => d.diffNotices reference.fields
  | .error e => [e.notice]

/-- The notices of comparing the fields in turn and merging what is found for each. -/
def diffIntoFieldsNotices : List (Value Snapshot) → List (Slot Snapshot Draft) →
    List (Pending Accumulator) → List Notice
  | r :: rs, s :: slots, q :: qs =>
    diffSlotNotices r s
      ++ (match diffSlot r s with
        | some p => Accumulator.absorbPayloadNotices p q
        | none => [])
      ++ diffIntoFieldsNotices rs slots qs
  | _, _, _ => []

/-- The notices of `diffInto`. -/
def diffIntoNotices (d : Draft) (a : Accumulator) (reference : Snapshot) : List Notice :=
  match d.diffInto a reference with
  | .ok _ => diffIntoFieldsNotices reference.fields d.slots a.fields
  | .error e => [e.notice]

/-- The notices of `diff`. -/
def ownDiffNotices (d : Draft) : List Notice :=
  d.diffNotices (match d.reference with
    | some r => r.fields
    | none => d.layout.zeros)

/-- The notices of `toChange`. -/
def toChangeNotices (d : Draft) : Intent → List Notice
  | .delete =>
    match d.buildsReference, d.reference with
    | true, some r => r.teardownNotices
    | _, _ => ((d.build 0).getD (d.buildEmpty 0)).teardownNotices
  | _ => d.diffNotices d.layout.zeros

end Draft

namespace RecordEntryChange

/-- The notices of `between`. -/
def betweenNotices (reference current : List (Key × Snapshot)) : List Notice :=
  Snapshot.teardownEntriesNotices (reference.filter fun e => !Keyed.has e.1 current)
    ++ Snapshot.diffEntriesNotices reference current
    ++ [.compared .modelMap (between reference current).length]

/-- The notices of `betweenDrafts`. -/
def betweenDraftsNotices (reference : List (Key × Snapshot)) (current : List (Key × Draft)) :
    List Notice :=
  Draft.diffWorkingNotices (.modelMap .zero reference) (.modelMap current)

end RecordEntryChange

mutual

/-- The notices of `Edit.run`. -/
def Edit.notices : Edit → Draft → List Notice
  | .apply c, d => d.applyNotices c
  | .field name e, d =>
    match d.layout.indexOf? name >>= fun i => d.slots[i]? with
    | some s => e.notices s.working
    | none => []
  | _, _ => []

/-- The notices of `FieldEdit.run`. -/
def FieldEdit.notices : FieldEdit → Working Draft → List Notice
  | .nested e, .nested (some d) => e.notices d
  | .entry k e, .modelMap es =>
    match Keyed.find? k es with
    | some d => e.notices d
    | none => []
  | _, _ => []

end

end VersionedRecords
