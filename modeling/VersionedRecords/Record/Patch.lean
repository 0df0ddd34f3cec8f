import VersionedRecords.Record.Draft

/-!
Applying changes to drafts.

A deletion empties the draft and marks it as deleted.  Any other change is applied field by field,
and only the fields it carries are touched.  A change of a sub-record is applied in place if the
draft holds that very sub-record and the change is not its creation; otherwise the sub-record begins
anew from the change alone.  So a sub-change always meets a draft of its own identity, and only the
outermost application can be refused.
-/

namespace VersionedRecords

namespace Change

mutual

/-- The draft after a change of the same record. -/
def applyTo : Change → Draft → Draft
  | ⟨_, intent, _, fields⟩, d =>
    if intent = .delete then d.reset.setLastIntent (some .delete)
    else { d with lastIntent := some intent, slots := applyFields fields d.slots }

def applyFields : List (Option (Payload Change)) → List (Slot Snapshot Draft) →
    List (Slot Snapshot Draft)
  | none :: payloads, s :: slots => s :: applyFields payloads slots
  | some p :: payloads, s :: slots =>
    .touched (applyPayload p s.working) :: applyFields payloads slots
  | _, slots => slots

/-- The working copy after what a change carries for its field. -/
def applyPayload : Payload Change → Working Draft → Working Draft
  | .scalar v, _ => .scalar v
  | .attached v, _ => .attached v
  | .nested c, .nested (some d) =>
    if c.intent ≠ .add ∧ d.identity = c.identity then .nested (some (applyTo c d))
    else .nested (some (applyTo c (.new c.layout c.key)))
  | .nested c, _ => .nested (some (applyTo c (.new c.layout c.key)))
  | .keySet cs, .keySet ms => .keySet (MemberChange.applyAll cs ms)
  | .valueMap cs, .valueMap es => .valueMap (EntryChange.applyAll cs es)
  | .modelMap cs, .modelMap es => .modelMap (applyEntries cs es)
  | _, w => w

/-- The entries of a map after several changes in order. -/
def applyEntries : List (RecordEntryChange Change) → List (Key × Draft) → List (Key × Draft)
  | [], es => es
  | ⟨intent, key, c⟩ :: rest, es =>
    applyEntries rest <|
      if intent = .delete then Keyed.erase key es
      else match Keyed.find? key es with
        | some d =>
          if c.intent ≠ .add ∧ d.identity = c.identity then Keyed.insert key (applyTo c d) es
          else Keyed.insert key (applyTo c (.new c.layout c.key)) es
        | none => Keyed.insert key (applyTo c (.new c.layout c.key)) es

end

/-- The draft that begins from nothing with one change applied. -/
def toDraft (c : Change) : Draft := c.applyTo (.new c.layout c.key)

end Change

namespace Draft

/-- Applies a change, which has to be of the same record. -/
def apply (d : Draft) (c : Change) : Except IdentityMismatch Draft := do
  requireSameKey .apply d.key c.key
  return c.applyTo d

end Draft

namespace Slot

/-- Applies what a change carries for the field. -/
def apply (s : Slot Snapshot Draft) (p : Payload Change) : Slot Snapshot Draft :=
  .touched (Change.applyPayload p s.working)

end Slot

end VersionedRecords
