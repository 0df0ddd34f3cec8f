import VersionedRecords.Element.Entry
import VersionedRecords.Layout

/-!
Changes: immutable descriptions of the difference between two versions of a record.  A change says
what it does with the record as a whole and carries, for each field that it speaks about, what has
to be done to the field.
-/

namespace VersionedRecords

/-- The change of one entry of a map to sub-records; `γ` is the type of changes.  The entry has its
own intent and its own key, which need not be the key of the sub-record. -/
structure RecordEntryChange (γ : Type) where
  intent : Intent
  key : Key
  change : γ

/-- What a change carries for one field. -/
inductive Payload (γ : Type)
  | scalar (value : Datum)
  /-- The absent value is carried too: it removes what was there. -/
  | attached (value : Option Datum)
  | nested (change : γ)
  | keySet (changes : List MemberChange)
  | valueMap (changes : List EntryChange)
  | modelMap (changes : List (RecordEntryChange γ))

/-- The difference between two versions of a record. -/
structure Change where
  layout : Layout
  intent : Intent
  key : Key
  /-- For each field of the layout what is carried for it, if anything. -/
  fields : List (Option (Payload Change))

namespace Change

/-- Whether the change speaks about any field. -/
def hasChanges (c : Change) : Bool := c.fields.any Option.isSome

/-- What the change carries for a field, by its name. -/
def field? (c : Change) (name : String) : Option (Payload Change) :=
  c.layout.indexOf? name >>= fun i => (c.fields[i]?).join

/-- The changes of all entries of a map to sub-records. -/
def flatten (c : Change) (name : String) : List Change :=
  match c.field? name with
  | some (.modelMap es) => es.map RecordEntryChange.change
  | _ => []

mutual

/-- Equality as values, numbers as numbers. -/
def same : Change → Change → Bool
  | ⟨l, i, k, fs⟩, ⟨l', i', k', fs'⟩ => i == i' && k == k' && l == l' && sameFields fs fs'

def sameFields : List (Option (Payload Change)) → List (Option (Payload Change)) → Bool
  | [], [] => true
  | none :: ps, none :: qs => sameFields ps qs
  | some p :: ps, some q :: qs => samePayload p q && sameFields ps qs
  | _, _ => false

def samePayload : Payload Change → Payload Change → Bool
  | .scalar v, .scalar w => v.same w
  | .attached v, .attached w => Datum.sameOption v w
  | .nested c, .nested d => same c d
  | .keySet cs, .keySet ds => cs == ds
  | .valueMap cs, .valueMap ds => sameEntries cs ds
  | .modelMap cs, .modelMap ds => sameRecordEntries cs ds
  | _, _ => false

def sameEntries : List EntryChange → List EntryChange → Bool
  | [], [] => true
  | c :: cs, d :: ds => c.same d && sameEntries cs ds
  | _, _ => false

def sameRecordEntries : List (RecordEntryChange Change) → List (RecordEntryChange Change) → Bool
  | [], [] => true
  | ⟨i, k, c⟩ :: cs, ⟨i', k', c'⟩ :: ds =>
    i == i' && k == k' && same c c' && sameRecordEntries cs ds
  | _, _ => false

end

end Change

end VersionedRecords
