import VersionedRecords.Record.Change
import VersionedRecords.Record.Snapshot

/-!
Accumulators: changes in the making.  An accumulator takes in several changes of one record, one
after the other, and is in the end built into a single change that stands for all of them.

The parts that work on sub-records never fail: before a sub-change is merged its identity is
compared, and one of another identity replaces what was there.
-/

namespace VersionedRecords

/-- What has been merged so far for one entry of a map to sub-records. -/
structure RecordEntryState (α : Type) where
  state : IntentState
  pending : α

/-- What has been merged so far for one field; `α` is the type of accumulators. -/
inductive Pending (α : Type)
  | scalar (value : Option Datum)
  | attached (value : Option (Option Datum))
  | nested (pending : Option α)
  | keySet (members : List (Key × IntentState))
  | valueMap (entries : List (Key × EntryState))
  | modelMap (entries : List (Key × RecordEntryState α))

/-- Nothing merged yet for a field of the given kind. -/
def Pending.zero {α : Type} : FieldKind → Pending α
  | .scalar _ => .scalar none
  | .attached _ => .attached none
  | .nested _ => .nested none
  | .keySet _ => .keySet []
  | .valueMap _ _ => .valueMap []
  | .modelMap _ _ => .modelMap []

/-- The changes of one record merged so far. -/
structure Accumulator where
  layout : Layout
  state : IntentState
  key : Key
  fields : List (Pending Accumulator)

/-- The record a change is about. -/
def Change.identity (c : Change) : Identity := ⟨c.layout, c.key⟩

/-- A list with something in it. -/
def nonEmpty? {α : Type} (items : List α) : Option (List α) :=
  if items.isEmpty then none else some items

namespace Accumulator

def identity (a : Accumulator) : Identity := ⟨a.layout, a.key⟩

/-- The accumulator with nothing merged yet. -/
def start (layout : Layout) (intent : Intent) (key : Key) : Accumulator :=
  ⟨layout, .start intent, key, layout.kinds.map Pending.zero⟩

def setIntent (a : Accumulator) (i : Intent) : Accumulator := { a with state := a.state.set i }

def resetIntent (a : Accumulator) : Accumulator := { a with state := a.state.reset }

mutual

/-- The accumulator that begins with one change. -/
def ofChange : Change → Accumulator
  | ⟨layout, intent, key, fields⟩ =>
    ⟨layout, .start intent, key, ofFields layout.kinds fields⟩

def ofFields : List FieldKind → List (Option (Payload Change)) → List (Pending Accumulator)
  | kind :: kinds, none :: payloads => Pending.zero kind :: ofFields kinds payloads
  | _ :: kinds, some p :: payloads => ofPayload p :: ofFields kinds payloads
  | _, _ => []

/-- What one payload amounts to on its own; of several changes for one element the last stands. -/
def ofPayload : Payload Change → Pending Accumulator
  | .scalar v => .scalar (some v)
  | .attached v => .attached (some v)
  | .nested c => .nested (some (ofChange c))
  | .keySet cs => .keySet (MemberChange.collect cs)
  | .valueMap cs => .valueMap (EntryChange.collect cs)
  | .modelMap cs => .modelMap (Keyed.ofList (ofEntries cs))

def ofEntries : List (RecordEntryChange Change) → List (Key × RecordEntryState Accumulator)
  | [] => []
  | ⟨intent, key, change⟩ :: rest => (key, ⟨.start intent, ofChange change⟩) :: ofEntries rest

end

mutual

/-- Merges a later change of the same record. -/
def absorb : Change → Accumulator → Accumulator
  | ⟨_, intent, _, fields⟩, a =>
    { a with state := a.state.absorb intent, fields := absorbFields fields a.fields }

def absorbFields :
    List (Option (Payload Change)) → List (Pending Accumulator) → List (Pending Accumulator)
  | none :: payloads, q :: qs => q :: absorbFields payloads qs
  | some p :: payloads, q :: qs => absorbPayload p q :: absorbFields payloads qs
  | _, qs => qs

/-- Merges what a change carries for one field.  A sub-change is merged with what is pending for the
same sub-record if it updates that; any other sub-change says all there is to say about the
sub-record and replaces what is pending. -/
def absorbPayload : Payload Change → Pending Accumulator → Pending Accumulator
  | .scalar v, _ => .scalar (some v)
  | .attached v, _ => .attached (some v)
  | .nested c, .nested (some a) =>
    if c.intent = .update ∧ a.identity = c.identity then .nested (some (absorb c a))
    else .nested (some (ofChange c))
  | .nested c, _ => .nested (some (ofChange c))
  | .keySet cs, .keySet pending => .keySet (MemberChange.mergeAll cs pending)
  | .valueMap cs, .valueMap pending => .valueMap (EntryChange.mergeAll cs pending)
  | .modelMap cs, .modelMap pending => .modelMap (absorbEntries cs pending)
  | _, q => q

def absorbEntries : List (RecordEntryChange Change) → List (Key × RecordEntryState Accumulator) →
    List (Key × RecordEntryState Accumulator)
  | [], pending => pending
  | ⟨intent, key, change⟩ :: rest, pending =>
    absorbEntries rest <| Keyed.insert key
      (match Keyed.find? key pending with
        | some ⟨state, a⟩ =>
          ⟨state.absorb intent,
            if change.intent = .update ∧ a.identity = change.identity then absorb change a
            else ofChange change⟩
        | none => ⟨.start intent, ofChange change⟩)
      pending

end

mutual

/-- The single change that stands for all merged ones; none if it would be an update that speaks
about no field. -/
def build : Accumulator → Option Change
  | ⟨layout, state, key, fields⟩ =>
    let payloads := settleFields fields
    if state.current = .update ∧ payloads.any Option.isSome = false then none
    else some ⟨layout, state.current, key, payloads⟩

def settleFields : List (Pending Accumulator) → List (Option (Payload Change))
  | [] => []
  | q :: qs => settle q :: settleFields qs

/-- What is carried for one field, if anything. -/
def settle : Pending Accumulator → Option (Payload Change)
  | .scalar v => v.map .scalar
  | .attached v => v.map .attached
  | .nested none => none
  | .nested (some a) => (build a).map .nested
  | .keySet pending => (nonEmpty? (MemberChange.settle pending)).map .keySet
  | .valueMap pending => (nonEmpty? (EntryChange.settle pending)).map .valueMap
  | .modelMap pending => (nonEmpty? (settleEntries pending)).map .modelMap

/-- The changes of the entries; entries whose sub-record stays as it is drop out. -/
def settleEntries :
    List (Key × RecordEntryState Accumulator) → List (RecordEntryChange Change)
  | [] => []
  | (key, ⟨state, a⟩) :: rest =>
    match build a with
    | some change => ⟨state.current, key, change⟩ :: settleEntries rest
    | none => settleEntries rest

end

/-- The change made of one payload per field, each taken through an empty accumulator. -/
def gather (layout : Layout) (intent : Intent) (key : Key)
    (payloads : List (Option (Payload Change))) : Option Change :=
  let a := start layout intent key
  build { a with fields := absorbFields payloads a.fields }

/-- Merges a change, which has to be of the same record. -/
def add (a : Accumulator) (c : Change) : Except IdentityMismatch Accumulator := do
  requireSameKey .merge a.key c.key
  return absorb c a

/-- Merges what is given for a single field. -/
def addField (a : Accumulator) (index : Nat) (p : Payload Change) : Accumulator :=
  { a with fields := a.fields.modify index (absorbPayload p) }

/-- What has been merged so far for a field, by its name. -/
def field? (a : Accumulator) (name : String) : Option (Payload Change) :=
  a.layout.indexOf? name >>= fun i => a.fields[i]? >>= settle

end Accumulator

/-- The merged changes of one entry of a map to sub-records. -/
structure RecordEntryAccumulator where
  key : Key
  state : RecordEntryState Accumulator

namespace RecordEntryAccumulator

/-- The accumulator that begins with one change. -/
def ofChange (c : RecordEntryChange Change) : RecordEntryAccumulator :=
  ⟨c.key, .start c.intent, .ofChange c.change⟩

def setIntent (a : RecordEntryAccumulator) (i : Intent) : RecordEntryAccumulator :=
  { a with state := { a.state with state := a.state.state.set i } }

def resetIntent (a : RecordEntryAccumulator) : RecordEntryAccumulator :=
  { a with state := { a.state with state := a.state.state.reset } }

/-- Merges a later change of the same entry. -/
def add (a : RecordEntryAccumulator) (c : RecordEntryChange Change) :
    Except IdentityMismatch RecordEntryAccumulator := do
  requireSameKey .merge a.key c.key
  let merged :=
    if c.change.intent = .update ∧ a.state.pending.identity = c.change.identity then
      Accumulator.absorb c.change a.state.pending
    else .ofChange c.change
  return { a with state := ⟨a.state.state.absorb c.intent, merged⟩ }

/-- The single change of the entry; none if its sub-record stays as it is. -/
def build (a : RecordEntryAccumulator) : Option (RecordEntryChange Change) :=
  a.state.pending.build.map fun c => ⟨a.state.state.current, a.key, c⟩

end RecordEntryAccumulator

end VersionedRecords
