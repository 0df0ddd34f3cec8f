import VersionedRecords.Key.Inspect
import VersionedRecords.Record.Draft

/-!
The text by which records, changes and drafts are shown: everything they hold, by name and on one
line.
-/

namespace VersionedRecords

open Text

def Datum.inspect : Datum → String
  | .key k => k.inspect
  | .float x => x.inspect
  | .bytes bs => inspectList (bs.map fun b => toString b.toNat)
  | .variant name => name
  | .timestamp ms => inspectWrapped "Timestamp" (toString ms)

def Datum.inspectOption (v : Option Datum) : String := Text.inspectOption (v.map Datum.inspect)

def IntentState.inspect (s : IntentState) : String :=
  inspectParts "DeltaTypeState" [("initial", s.initial.inspect), ("current", s.current.inspect)]

def MemberChange.inspect (c : MemberChange) : String :=
  inspectParts "KeyDelta" [("delta_type", c.intent.inspect), ("key", c.key.inspect)]

def EntryChange.inspect (c : EntryChange) : String :=
  inspectParts "KeyValuePairDelta"
    [("delta_type", c.intent.inspect), ("key", c.key.inspect),
      ("value", Datum.inspectOption c.value)]

/-- The named parts of the fields of a layout. -/
def Layout.inspectFields (l : Layout) (texts : List String) : List (String × String) :=
  (l.fields.map Field.name).zip texts

namespace Snapshot

mutual

def inspect : Snapshot → String
  | ⟨layout, key, _, fields⟩ =>
    inspectParts layout.name
      ((layout.keyName, key.inspect) :: layout.inspectFields (inspectFields fields))

def inspectFields : List (Value Snapshot) → List String
  | [] => []
  | v :: vs => inspectValue v :: inspectFields vs

def inspectValue : Value Snapshot → String
  | .scalar v => v.inspect
  | .attached v => Datum.inspectOption v
  | .nested none => inspectOption none
  | .nested (some s) => inspectOption (some (inspect s))
  | .keySet _ ms => inspectSet (ms.map Key.inspect)
  | .valueMap _ es => inspectMap (es.map fun e => (e.1.inspect, e.2.inspect))
  | .modelMap _ es => inspectMap (inspectEntries es)

def inspectEntries : List (Key × Snapshot) → List (String × String)
  | [] => []
  | (k, s) :: rest => (k.inspect, inspect s) :: inspectEntries rest

end

end Snapshot

namespace Change

mutual

def inspect : Change → String
  | ⟨layout, intent, key, fields⟩ =>
    inspectParts (layout.name ++ "Delta")
      (("delta_type", intent.inspect) :: (layout.keyName, key.inspect)
        :: layout.inspectFields (inspectFields fields))

def inspectFields : List (Option (Payload Change)) → List String
  | [] => []
  | none :: ps => inspectOption none :: inspectFields ps
  | some p :: ps => inspectOption (some (inspectPayload p)) :: inspectFields ps

def inspectPayload : Payload Change → String
  | .scalar v => v.inspect
  | .attached v => Datum.inspectOption v
  | .nested c => inspect c
  | .keySet cs => inspectList (cs.map MemberChange.inspect)
  | .valueMap cs => inspectList (cs.map EntryChange.inspect)
  | .modelMap cs => inspectList (inspectEntries cs)

def inspectEntries : List (RecordEntryChange Change) → List String
  | [] => []
  | ⟨intent, key, c⟩ :: rest =>
    inspectParts "KeyModelDeltaPairDelta"
      [("delta_type", intent.inspect), ("key", key.inspect), ("value", inspect c)]
      :: inspectEntries rest

end

end Change

namespace Draft

mutual

def inspect : Draft → String
  | ⟨layout, key, reference, lastIntent, slots⟩ =>
    inspectParts (layout.name ++ "Builder")
      (("reference", inspectOption (reference.map Snapshot.inspect))
        :: ("last_delta_type", inspectOption (lastIntent.map Intent.inspect))
        :: (layout.keyName, key.inspect) :: layout.inspectFields (inspectSlots slots))

def inspectSlots : List (Slot Snapshot Draft) → List String
  | [] => []
  | s :: rest => inspectSlot s :: inspectSlots rest

def inspectSlot : Slot Snapshot Draft → String
  | .deferred v => inspectWrapped "Deferred" (Snapshot.inspectValue v)
  | .touched w => inspectWrapped "Touched" (inspectWorking w)

def inspectWorking : Working Draft → String
  | .scalar v => v.inspect
  | .attached v => Datum.inspectOption v
  | .nested none => inspectOption none
  | .nested (some d) => inspectOption (some (inspect d))
  | .keySet ms => inspectSet (ms.map Key.inspect)
  | .valueMap es => inspectMap (es.map fun e => (e.1.inspect, e.2.inspect))
  | .modelMap es => inspectMap (inspectEntries es)

def inspectEntries : List (Key × Draft) → List (String × String)
  | [] => []
  | (k, d) :: rest => (k.inspect, inspect d) :: inspectEntries rest

end

end Draft

namespace Accumulator

mutual

def inspect : Accumulator → String
  | ⟨layout, state, key, fields⟩ =>
    inspectParts (layout.name ++ "DeltaBuilder")
      (("state", state.inspect) :: (layout.keyName, key.inspect)
        :: layout.inspectFields (inspectFields fields))

def inspectFields : List (Pending Accumulator) → List String
  | [] => []
  | q :: qs => inspectParts "DeltaSlot" [("pending", inspectPending q)] :: inspectFields qs

def inspectPending : Pending Accumulator → String
  | .scalar v => Datum.inspectOption v
  | .attached v => inspectOption (v.map Datum.inspectOption)
  | .nested none => inspectOption none
  | .nested (some a) => inspectOption (some (inspect a))
  | .keySet pending =>
    inspectMap (pending.map fun e =>
      (e.1.inspect,
        inspectParts "KeyDeltaBuilder" [("state", e.2.inspect), ("key", e.1.inspect)]))
  | .valueMap pending =>
    inspectMap (pending.map fun e =>
      (e.1.inspect,
        inspectParts "KeyValuePairDeltaBuilder"
          [("state", e.2.state.inspect), ("key", e.1.inspect),
            ("value", Datum.inspectOption e.2.value)]))
  | .modelMap pending => inspectMap (inspectEntries pending)

def inspectEntries : List (Key × RecordEntryState Accumulator) → List (String × String)
  | [] => []
  | (k, ⟨state, a⟩) :: rest =>
    (k.inspect,
      inspectParts "KeyModelDeltaPairDeltaBuilder"
        [("state", state.inspect), ("key", k.inspect), ("value", inspect a)])
      :: inspectEntries rest

end

/-- What is pending for one field, with its frame. -/
def inspectSlot (q : Pending Accumulator) : String :=
  inspectParts "DeltaSlot" [("pending", inspectPending q)]

end Accumulator

end VersionedRecords
