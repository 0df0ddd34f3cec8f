import VersionedRecords.Record.Diff

/-!
Applying, merging and comparing as attempts.

What is done to a draft or to an accumulator is done in place, field by field, and every change of a
sub-record that is applied or merged in place is checked for its key like the outermost one.  Here
each of these checks stands where it is made, and an attempt that is stopped half-way leaves what it
has done so far.
-/

namespace VersionedRecords

/-- Where something that works in place has got to: what it leaves, and what has stopped it if it
was stopped. -/
structure Attempt (σ : Type) where
  left : σ
  stopped : Option IdentityMismatch

namespace Attempt

variable {σ τ : Type}

def done (s : σ) : Attempt σ := ⟨s, none⟩

/-- The attempt at a part, seen as one at the whole. -/
def map (f : σ → τ) (a : Attempt σ) : Attempt τ := ⟨f a.left, a.stopped⟩

/-- Goes on with what an attempt leaves.  If it was stopped, what it leaves is put back. -/
def andThen (a : Attempt σ) (putBack : σ → τ) (next : σ → Attempt τ) : Attempt τ :=
  match a.stopped with
  | some e => ⟨putBack a.left, some e⟩
  | none => next a.left

/-- Goes on if both keys are equal. -/
def require (operation : KeyedOperation) (expected found : Key) (s : σ) (next : Attempt σ) :
    Attempt σ :=
  match requireSameKey operation expected found with
  | .error e => ⟨s, some e⟩
  | .ok () => next

/-- What is reported of the attempt. -/
def outcome (a : Attempt σ) : Except IdentityMismatch σ :=
  match a.stopped with
  | some e => .error e
  | none => .ok a.left

end Attempt

/-! ### Applying -/

namespace Change

mutual

/-- Applies a change to a draft. -/
def tryApply : Change → Draft → Attempt Draft
  | ⟨_, intent, key, fields⟩, d =>
    .require .apply d.key key d <|
      if intent = .delete then .done (d.reset.setLastIntent (some .delete))
      else (tryApplyFields fields d.slots).map fun slots =>
        { d with lastIntent := some intent, slots := slots }

def tryApplyFields : List (Option (Payload Change)) → List (Slot Snapshot Draft) →
    Attempt (List (Slot Snapshot Draft))
  | none :: payloads, s :: slots => (tryApplyFields payloads slots).map (s :: ·)
  | some p :: payloads, s :: slots =>
    (tryApplyPayload p s.working).andThen (fun w => .touched w :: slots)
      fun w => (tryApplyFields payloads slots).map (.touched w :: ·)
  | _, slots => .done slots

/-- Applies what a change carries for a field.  A draft that is begun anew is put in place when
it is finished. -/
def tryApplyPayload : Payload Change → Working Draft → Attempt (Working Draft)
  | .scalar v, _ => .done (.scalar v)
  | .attached v, _ => .done (.attached v)
  | .nested c, .nested (some d) =>
    if c.intent ≠ .add ∧ d.identity = c.identity then (tryApply c d).map (.nested <| some ·)
    else (tryApply c (.new c.layout c.key)).andThen (fun _ => .nested (some d))
      (.done <| .nested <| some ·)
  | .nested c, w =>
    (tryApply c (.new c.layout c.key)).andThen (fun _ => w) (.done <| .nested <| some ·)
  | .keySet cs, .keySet ms => .done (.keySet (MemberChange.applyAll cs ms))
  | .valueMap cs, .valueMap es => .done (.valueMap (EntryChange.applyAll cs es))
  | .modelMap cs, .modelMap es => (tryApplyEntries cs es).map .modelMap
  | _, w => .done w

def tryApplyEntries : List (RecordEntryChange Change) → List (Key × Draft) →
    Attempt (List (Key × Draft))
  | [], es => .done es
  | ⟨intent, key, c⟩ :: rest, es =>
    if intent = .delete then tryApplyEntries rest (Keyed.erase key es)
    else match Keyed.find? key es with
      | some d =>
        if c.intent ≠ .add ∧ d.identity = c.identity then
          (tryApply c d).andThen (Keyed.insert key · es)
            fun d => tryApplyEntries rest (Keyed.insert key d es)
        else (tryApply c (.new c.layout c.key)).andThen (fun _ => es)
          fun d => tryApplyEntries rest (Keyed.insert key d es)
      | none => (tryApply c (.new c.layout c.key)).andThen (fun _ => es)
          fun d => tryApplyEntries rest (Keyed.insert key d es)

end

/-- Begins a draft from nothing and applies one change to it. -/
def tryToDraft (c : Change) : Except IdentityMismatch Draft :=
  (c.tryApply (.new c.layout c.key)).outcome

end Change

/-! ### Merging -/

namespace MemberChange

/-- Merges a change into what is pending for its member. -/
def tryMergeInto (c : MemberChange) (pending : Keyed IntentState) : Attempt (Keyed IntentState) :=
  match Keyed.find? c.key pending with
  | some s =>
    match (⟨s, c.key⟩ : MemberAccumulator).add c with
    | .error e => ⟨pending, some e⟩
    | .ok a => .done (Keyed.insert c.key a.state pending)
  | none => .done (Keyed.insert c.key (.start c.intent) pending)

def tryMergeAll : List MemberChange → Keyed IntentState → Attempt (Keyed IntentState)
  | [], pending => .done pending
  | c :: rest, pending => (c.tryMergeInto pending).andThen id (tryMergeAll rest)

end MemberChange

namespace EntryChange

/-- Merges a change into what is pending for its entry. -/
def tryMergeInto (c : EntryChange) (pending : Keyed EntryState) : Attempt (Keyed EntryState) :=
  match Keyed.find? c.key pending with
  | some s =>
    match (⟨s.state, c.key, s.value⟩ : EntryAccumulator).add c with
    | .error e => ⟨pending, some e⟩
    | .ok a => .done (Keyed.insert c.key ⟨a.state, a.value⟩ pending)
  | none => .done (Keyed.insert c.key (.start c) pending)

def tryMergeAll : List EntryChange → Keyed EntryState → Attempt (Keyed EntryState)
  | [], pending => .done pending
  | c :: rest, pending => (c.tryMergeInto pending).andThen id (tryMergeAll rest)

end EntryChange

mutual

/-- Merges a change into an accumulator. -/
def Accumulator.tryMerge : Change → Accumulator → Attempt Accumulator
  | ⟨_, intent, key, fields⟩, a =>
    .require .merge a.key key a <|
      (Accumulator.tryMergeFields fields a.fields).map fun qs =>
        { a with state := a.state.absorb intent, fields := qs }

def Accumulator.tryMergeFields : List (Option (Payload Change)) → List (Pending Accumulator) →
    Attempt (List (Pending Accumulator))
  | none :: payloads, q :: qs => (Accumulator.tryMergeFields payloads qs).map (q :: ·)
  | some p :: payloads, q :: qs =>
    (Accumulator.tryMergePayload p q).andThen (· :: qs)
      fun q => (Accumulator.tryMergeFields payloads qs).map (q :: ·)
  | _, qs => .done qs

/-- Merges what is given for a single field. -/
def Accumulator.tryMergePayload : Payload Change → Pending Accumulator →
    Attempt (Pending Accumulator)
  | .scalar v, _ => .done (.scalar (some v))
  | .attached v, _ => .done (.attached (some v))
  | .nested c, .nested (some a) =>
    if c.intent = .update ∧ a.identity = c.identity then
      (Accumulator.tryMerge c a).map (.nested <| some ·)
    else .done (.nested (some (.ofChange c)))
  | .nested c, _ => .done (.nested (some (.ofChange c)))
  | .keySet cs, .keySet pending => (MemberChange.tryMergeAll cs pending).map .keySet
  | .valueMap cs, .valueMap pending => (EntryChange.tryMergeAll cs pending).map .valueMap
  | .modelMap cs, .modelMap pending => (Accumulator.tryMergeEntries cs pending).map .modelMap
  | _, q => .done q

def Accumulator.tryMergeEntries : List (RecordEntryChange Change) →
    List (Key × RecordEntryState Accumulator) →
    Attempt (List (Key × RecordEntryState Accumulator))
  | [], pending => .done pending
  | ⟨intent, key, change⟩ :: rest, pending =>
    match Keyed.find? key pending with
    | some s =>
      (RecordEntryAccumulator.tryAdd ⟨intent, key, change⟩ ⟨key, s⟩).andThen
        (fun a => Keyed.insert key a.state pending)
        fun a => Accumulator.tryMergeEntries rest (Keyed.insert key a.state pending)
    | none =>
      Accumulator.tryMergeEntries rest
        (Keyed.insert key ⟨.start intent, .ofChange change⟩ pending)

/-- Merges a later change of an entry of a map to sub-records. -/
def RecordEntryAccumulator.tryAdd : RecordEntryChange Change → RecordEntryAccumulator →
    Attempt RecordEntryAccumulator
  | ⟨intent, key, change⟩, a =>
    .require .merge a.key key a <|
      if change.intent = .update ∧ a.state.pending.identity = change.identity then
        (Accumulator.tryMerge change a.state.pending).map fun pending =>
          { a with state := ⟨a.state.state.absorb intent, pending⟩ }
      else .done { a with state := ⟨a.state.state.absorb intent, .ofChange change⟩ }

end

namespace Accumulator

/-- Merges what is given for the field at a position. -/
def tryAddField (a : Accumulator) (index : Nat) (p : Payload Change) : Attempt Accumulator :=
  match a.fields[index]? with
  | none => .done a
  | some q => (tryMergePayload p q).map fun q => { a with fields := a.fields.set index q }

/-- Merges what is found field by field until a comparison or a merge is stopped. -/
def tryCollect : List (Except IdentityMismatch (Option (Payload Change))) →
    List (Pending Accumulator) → Attempt (List (Pending Accumulator))
  | .error e :: _, qs => ⟨qs, some e⟩
  | .ok none :: found, q :: qs => (tryCollect found qs).map (q :: ·)
  | .ok (some p) :: found, q :: qs =>
    (tryMergePayload p q).andThen (· :: qs) fun q => (tryCollect found qs).map (q :: ·)
  | _, qs => .done qs

/-- Merges what is found between a record with the key and a reference. -/
def tryReconcile (a : Accumulator) (key referenceKey : Key)
    (found : List (Except IdentityMismatch (Option (Payload Change)))) : Attempt Accumulator :=
  .require .reconcile key a.key a <| .require .reconcile key referenceKey a <|
    (tryCollect found a.fields).map fun qs => { a with fields := qs }

/-- The change made of what is found between a record with the key and a reference. -/
def tryGather (layout : Layout) (intent : Intent) (key referenceKey : Key)
    (found : List (Except IdentityMismatch (Option (Payload Change)))) :
    Except IdentityMismatch (Option Change) :=
  ((start layout intent key).tryReconcile key referenceKey found).outcome.map build

end Accumulator

/-! ### Comparing -/

mutual

/-- Compares a record of zeros that has the key with a version of the record. -/
def Snapshot.tryTeardown (key : Key) : Snapshot → Except IdentityMismatch (Option Change)
  | ⟨layout, referenceKey, _, fields⟩ =>
    Accumulator.tryGather layout .delete key referenceKey
      (Snapshot.tryTeardownFields layout.kinds fields)

def Snapshot.tryTeardownFields : List FieldKind → List (Value Snapshot) →
    List (Except IdentityMismatch (Option (Payload Change)))
  | kind :: kinds, v :: vs =>
    Snapshot.tryTeardownValue kind v :: Snapshot.tryTeardownFields kinds vs
  | _, _ => []

def Snapshot.tryTeardownValue : FieldKind → Value Snapshot →
    Except IdentityMismatch (Option (Payload Change))
  | .scalar t, .scalar v => .ok (if v.same t.zero then none else some (.scalar t.zero))
  | _, .attached v => .ok (if v.isNone then none else some (.attached none))
  | _, .nested (some s) => (s.tryTeardown s.key).map (Option.map .nested)
  | _, .keySet _ ms => .ok ((nonEmpty? (MemberChange.between ms [])).map .keySet)
  | _, .valueMap _ es => .ok ((nonEmpty? (EntryChange.between es [])).map .valueMap)
  | _, .modelMap _ es =>
    (Snapshot.tryTeardownEntries es).map fun cs => (nonEmpty? cs).map .modelMap
  | _, _ => .ok none

def Snapshot.tryTeardownEntries : List (Key × Snapshot) →
    Except IdentityMismatch (List (RecordEntryChange Change))
  | [] => .ok []
  | (k, s) :: rest => do
    let found ← s.tryTeardown s.key
    let later ← Snapshot.tryTeardownEntries rest
    return (found.map (⟨.delete, k, ·⟩)).toList ++ later

end

mutual

/-- Compares a version of a record with a reference. -/
def Snapshot.tryDiff :
    Snapshot → Intent → Snapshot → Except IdentityMismatch (Option Change)
  | ⟨layout, key, _, fields⟩, intent, reference =>
    Accumulator.tryGather layout intent key reference.key
      (Snapshot.tryDiffFields reference.fields fields)

def Snapshot.tryDiffFields : List (Value Snapshot) → List (Value Snapshot) →
    List (Except IdentityMismatch (Option (Payload Change)))
  | r :: rs, v :: vs => Snapshot.tryDiffValue r v :: Snapshot.tryDiffFields rs vs
  | _, _ => []

def Snapshot.tryDiffValue : Value Snapshot → Value Snapshot →
    Except IdentityMismatch (Option (Payload Change))
  | .scalar r, .scalar v => .ok (if r.same v then none else some (.scalar v))
  | .attached r, .attached v => .ok (if Datum.sameOption r v then none else some (.attached v))
  | .nested none, .nested (some s) =>
    (s.tryDiff .add (.empty s.layout s.key .zero)).map (Option.map .nested)
  | .nested (some r), .nested (some s) =>
    if r.isShared s then .ok none
    else if r.identity = s.identity then (s.tryDiff .update r).map (Option.map .nested)
    else (s.tryDiff .add (.empty s.layout s.key .zero)).map (Option.map .nested)
  | .nested (some r), .nested none => (r.tryTeardown r.key).map (Option.map .nested)
  | .keySet o ms, .keySet o' ms' =>
    .ok (if o = o' ∧ ms = ms' then none
      else (nonEmpty? (MemberChange.between ms ms')).map .keySet)
  | .valueMap o es, .valueMap o' es' =>
    .ok (if o = o' ∧ es = es' then none
      else (nonEmpty? (EntryChange.between es es')).map .valueMap)
  | .modelMap o es, .modelMap o' es' =>
    if o = o' ∧ Snapshot.identicalEntries es es' then .ok none
    else do
      let gone ← Snapshot.tryTeardownEntries (es.filter fun e => !Keyed.has e.1 es')
      let there ← Snapshot.tryDiffEntries es es'
      return (nonEmpty? (gone ++ there)).map .modelMap
  | _, _ => .ok none

def Snapshot.tryDiffEntries (reference : List (Key × Snapshot)) : List (Key × Snapshot) →
    Except IdentityMismatch (List (RecordEntryChange Change))
  | [] => .ok []
  | (k, s) :: rest => do
    let found ← match Keyed.find? k reference with
      | none =>
        (s.tryDiff .add (.empty s.layout s.key .zero)).map (Option.map (⟨.add, k, ·⟩))
      | some r =>
        if r.isShared s then .ok none
        else if r.identity = s.identity then
          (s.tryDiff .update r).map (Option.map (⟨.update, k, ·⟩))
        else (s.tryDiff .add (.empty s.layout s.key .zero)).map (Option.map (⟨.update, k, ·⟩))
    let later ← Snapshot.tryDiffEntries reference rest
    return found.toList ++ later

end

mutual

/-- Compares the present state of a draft with a reference. -/
def Draft.tryDiff (intent : Intent) (reference : Snapshot) :
    Draft → Except IdentityMismatch (Option Change)
  | ⟨layout, key, _, _, slots⟩ =>
    Accumulator.tryGather layout intent key reference.key
      (Draft.tryDiffSlots reference.fields slots)

def Draft.tryDiffSlots : List (Value Snapshot) → List (Slot Snapshot Draft) →
    List (Except IdentityMismatch (Option (Payload Change)))
  | r :: rs, s :: slots => Draft.tryDiffSlot r s :: Draft.tryDiffSlots rs slots
  | _, _ => []

def Draft.tryDiffSlot (reference : Value Snapshot) : Slot Snapshot Draft →
    Except IdentityMismatch (Option (Payload Change))
  | .deferred v => Snapshot.tryDiffValue reference v
  | .touched w => Draft.tryDiffWorking reference w

def Draft.tryDiffWorking : Value Snapshot → Working Draft →
    Except IdentityMismatch (Option (Payload Change))
  | .scalar r, .scalar v => .ok (if r.same v then none else some (.scalar v))
  | .attached r, .attached v => .ok (if Datum.sameOption r v then none else some (.attached v))
  | .nested none, .nested (some d) =>
    if d.isDeleted then .ok none
    else (d.tryDiff .add (d.buildEmpty 0)).map (Option.map .nested)
  | .nested (some r), .nested (some d) =>
    if d.isDeleted then (r.tryTeardown r.key).map (Option.map .nested)
    else if r.identity = d.identity then (d.tryDiff .update r).map (Option.map .nested)
    else (d.tryDiff .add (d.buildEmpty 0)).map (Option.map .nested)
  | .nested (some r), .nested none => (r.tryTeardown r.key).map (Option.map .nested)
  | .keySet _ ms, .keySet ms' => .ok ((nonEmpty? (MemberChange.between ms ms')).map .keySet)
  | .valueMap _ es, .valueMap es' => .ok ((nonEmpty? (EntryChange.between es es')).map .valueMap)
  | .modelMap _ es, .modelMap es' => do
    let gone ← Snapshot.tryTeardownEntries
      (es.filter fun e => !(Keyed.find? e.1 es').any fun d => !d.isDeleted)
    let there ← Draft.tryDiffEntries es es'
    return (nonEmpty? (gone ++ there)).map .modelMap
  | _, _ => .ok none

def Draft.tryDiffEntries (reference : List (Key × Snapshot)) : List (Key × Draft) →
    Except IdentityMismatch (List (RecordEntryChange Change))
  | [] => .ok []
  | (k, d) :: rest => do
    let found ←
      if d.isDeleted then .ok none
      else match Keyed.find? k reference with
        | none => (d.tryDiff .add (d.buildEmpty 0)).map (Option.map (⟨.add, k, ·⟩))
        | some r =>
          if r.identity = d.identity then
            (d.tryDiff .update r).map (Option.map (⟨.update, k, ·⟩))
          else (d.tryDiff .add (d.buildEmpty 0)).map (Option.map (⟨.update, k, ·⟩))
    let later ← Draft.tryDiffEntries reference rest
    return found.toList ++ later

end

namespace Snapshot

/-- Describes a version as a change. -/
def tryToChange (s : Snapshot) : Intent → Except IdentityMismatch (Option Change)
  | .delete => s.tryTeardown s.key
  | intent => s.tryDiff intent (.empty s.layout s.key .zero)

end Snapshot

namespace Draft

/-- Merges into an accumulator every difference between a reference and the draft. -/
def tryDiffInto (d : Draft) (a : Accumulator) (reference : Snapshot) : Attempt Accumulator :=
  a.tryReconcile d.key reference.key (tryDiffSlots reference.fields d.slots)

/-- Compares the draft with its own reference, or with zeros. -/
def tryOwnDiff (d : Draft) : Except IdentityMismatch (Option Change) :=
  d.tryDiff d.ownIntent (d.reference.getD (d.buildEmpty 0))

/-- Describes the present state of the draft as a change. -/
def tryToChange (d : Draft) : Intent → Except IdentityMismatch (Option Change)
  | .delete =>
    match d.buildsReference, d.reference with
    | true, some r => r.tryTeardown d.key
    | _, _ => ((d.build 0).getD (d.buildEmpty 0)).tryTeardown d.key
  | intent => d.tryDiff intent (d.buildEmpty 0)

end Draft

end VersionedRecords
