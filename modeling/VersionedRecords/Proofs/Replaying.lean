import VersionedRecords.Proofs.Merging

/-!
Merging changes of members and entries, and replaying what is merged.

The changes of a collection are merged into accumulators, one under each key.  An accumulator knows
its key itself and refuses what has another one.  It never has to: it lies under the key that it
began with, and only changes of that key get to it.  What the accumulators tell in the end names
every key once and in ascending order, often with other intents than the changes had.  Applying it
still leaves what applying the changes one after the other leaves, since all that counts for a key
is whether its last change is a deletion, and which value that change brings.
-/

namespace VersionedRecords

namespace Keyed

variable {C A α : Type}

/-- Merges a change into the accumulator under its key, or begins one. -/
def takeIn (key : C → Key) (start : C → A) (add : A → C → Except IdentityMismatch A)
    (pending : Keyed A) (c : C) : Except IdentityMismatch (Keyed A) :=
  match find? (key c) pending with
  | some a => do
    let a ← add a c
    return insert (key c) a pending
  | none => return insert (key c) (start c) pending

/-- Values that know the keys under which they lie. -/
def labelled (label : Key → α → A) (m : Keyed α) : Keyed A := m.map fun e => (e.1, label e.1 e.2)

variable {label : Key → α → A}

theorem labelled_cons (e : Key × α) (m : Keyed α) :
    labelled label (e :: m) = (e.1, label e.1 e.2) :: labelled label m := rfl

theorem find?_labelled (k : Key) (m : Keyed α) :
    find? k (labelled label m) = (find? k m).map (label k) := by
  induction m with
  | nil => rfl
  | cons e rest ih =>
      obtain ⟨l, v⟩ := e
      rw [labelled_cons, find?, find?]
      split
      · next h =>
        subst h
        rfl
      · exact ih

theorem labelled_insert (k : Key) (v : α) (m : Keyed α) :
    labelled label (insert k v m) = insert k (label k v) (labelled label m) := by
  induction m with
  | nil => rfl
  | cons e rest ih =>
      obtain ⟨l, w⟩ := e
      rw [labelled_cons, insert, insert]
      split
      · rfl
      · split
        · rfl
        · rw [labelled_cons, ih]

/-- Accumulators that know the keys under which they lie take in everything. -/
theorem foldlM_takeIn_labelled {key : C → Key} {start : C → A}
    {add : A → C → Except IdentityMismatch A} {merge : Keyed α → C → Keyed α}
    {merged : C → Option α → α}
    (hmerge : ∀ m c, merge m c = insert (key c) (merged c (find? (key c) m)) m)
    (hstart : ∀ c, start c = label (key c) (merged c none))
    (hadd : ∀ c v, add (label (key c) v) c = .ok (label (key c) (merged c (some v))))
    (cs : List C) (m : Keyed α) :
    cs.foldlM (takeIn key start add) (labelled label m) =
      .ok (labelled label (cs.foldl merge m)) := by
  induction cs generalizing m with
  | nil => rfl
  | cons c cs ih =>
      have hstep :
          takeIn key start add (labelled label m) c = .ok (labelled label (merge m c)) := by
        rw [takeIn, find?_labelled, hmerge, labelled_insert]
        cases find? (key c) m with
        | none => exact congrArg (fun a => Except.ok (insert _ a _)) (hstart c)
        | some v =>
            dsimp only [Option.map_some]
            rw [hadd]
            rfl
      rw [List.foldlM_cons, hstep]
      exact ih (merge m c)

end Keyed

namespace MemberAccumulator

/-- Merges changes in order, beginning with nothing. -/
def gather (cs : List MemberChange) : Except IdentityMismatch (Keyed MemberAccumulator) :=
  cs.foldlM (Keyed.takeIn MemberChange.key ofChange add) []

/-- What the accumulators tell. -/
def buildAll (pending : Keyed MemberAccumulator) : List MemberChange :=
  pending.map fun e => e.2.build

/-- The accumulator of a key with a given intent. -/
def under (k : Key) (s : IntentState) : MemberAccumulator := ⟨s, k⟩

theorem add_under (c : MemberChange) (s : IntentState) :
    (under c.key s).add c = .ok (under c.key (c.merged (some s))) := by
  rw [add, requireSameKey, under, if_pos rfl]
  rfl

/-- Nothing is refused, and what is told is what is settled without the accumulators. -/
theorem exists_gather (cs : List MemberChange) : ∃ pending, gather cs = .ok pending ∧
    buildAll pending = MemberChange.settle (MemberChange.mergeAll cs []) := by
  refine ⟨Keyed.labelled under (MemberChange.mergeAll cs []), ?_, ?_⟩
  · rw [gather]
    exact Keyed.foldlM_takeIn_labelled MemberChange.mergeInto_eq (fun _ => rfl) add_under cs []
  · rw [buildAll, Keyed.labelled, List.map_map]
    rfl

end MemberAccumulator

namespace EntryAccumulator

/-- Merges changes in order, beginning with nothing. -/
def gather (cs : List EntryChange) : Except IdentityMismatch (Keyed EntryAccumulator) :=
  cs.foldlM (Keyed.takeIn EntryChange.key ofChange add) []

/-- What the accumulators tell. -/
def buildAll (pending : Keyed EntryAccumulator) : List EntryChange :=
  pending.map fun e => e.2.build

/-- The accumulator of a key with a given intent and value. -/
def under (k : Key) (s : EntryState) : EntryAccumulator := ⟨s.state, k, s.value⟩

theorem add_under (c : EntryChange) (s : EntryState) :
    (under c.key s).add c = .ok (under c.key (c.merged (some s))) := by
  rw [add, requireSameKey, under, if_pos rfl]
  rfl

/-- Nothing is refused, and what is told is what is settled without the accumulators. -/
theorem exists_gather (cs : List EntryChange) : ∃ pending, gather cs = .ok pending ∧
    buildAll pending = EntryChange.settle (EntryChange.mergeAll cs []) := by
  refine ⟨Keyed.labelled under (EntryChange.mergeAll cs []), ?_, ?_⟩
  · rw [gather]
    exact Keyed.foldlM_takeIn_labelled EntryChange.mergeInto_eq (fun _ => rfl) add_under cs []
  · rw [buildAll, Keyed.labelled, List.map_map]
    rfl

end EntryAccumulator

/-- All changes of members and of entries can be merged, and applying what has been merged is
applying the changes one after the other: to every set, and to every map as long as all values are
plain and no change that sets an entry comes without one. -/
theorem gathered_changes_replay :
    (∀ cs : List MemberChange, ∃ pending, MemberAccumulator.gather cs = .ok pending ∧
      MemberAccumulator.buildAll pending = MemberChange.settle (MemberChange.mergeAll cs []) ∧
      ∀ ms, KeySet.Ascending ms →
        MemberChange.applyAll (MemberAccumulator.buildAll pending) ms =
          MemberChange.applyAll cs ms) ∧
    ∀ cs : List EntryChange, ∃ pending, EntryAccumulator.gather cs = .ok pending ∧
      EntryAccumulator.buildAll pending = EntryChange.settle (EntryChange.mergeAll cs []) ∧
      ((∀ c ∈ cs, c.Valued) → ∀ es, Keyed.Ascending es → (∀ e ∈ es, e.2.isPlain = true) →
        EntryChange.applyAll (EntryAccumulator.buildAll pending) es =
          EntryChange.applyAll cs es) := by
  constructor
  · intro cs
    obtain ⟨pending, hgather, hbuild⟩ := MemberAccumulator.exists_gather cs
    refine ⟨pending, hgather, hbuild, fun ms hms => ?_⟩
    rw [hbuild, MemberChange.applyAll_mergeAll cs List.Pairwise.nil hms]
    rfl
  · intro cs
    obtain ⟨pending, hgather, hbuild⟩ := EntryAccumulator.exists_gather cs
    refine ⟨pending, hgather, hbuild, fun hvalued es hes hplain => ?_⟩
    rw [hbuild, EntryChange.applyAll_mergeAll hvalued List.Pairwise.nil (List.forall_mem_nil _) hes
      hplain]
    rfl

namespace Samples

/-- A member that joins, leaves and joins again, next to one that leaves. -/
def rejoining : List MemberChange :=
  [⟨.add, .text "b"⟩, ⟨.delete, .text "a"⟩, ⟨.delete, .text "b"⟩, ⟨.update, .text "b"⟩]

/-- An entry that is deleted and set twice, around one that is set and deleted. -/
def resetting : List EntryChange :=
  [⟨.delete, .text "a", none⟩, ⟨.add, .text "b", some (.timestamp 1)⟩,
    ⟨.add, .text "a", some (.timestamp 2)⟩, ⟨.delete, .text "b", none⟩,
    ⟨.update, .text "a", some (.timestamp 3)⟩]

end Samples

open Samples

/-- What is told has other intents than the changes: the member that joined again is added, and the
entry that was deleted first is updated. -/
theorem gathered_changes_replay_of_returning :
    (∃ pending, MemberAccumulator.gather rejoining = .ok pending ∧
      MemberAccumulator.buildAll pending = [⟨.delete, .text "a"⟩, ⟨.add, .text "b"⟩] ∧
      MemberChange.applyAll (MemberAccumulator.buildAll pending) [.text "a"] = [.text "b"]) ∧
    ∃ pending, EntryAccumulator.gather resetting = .ok pending ∧
      EntryAccumulator.buildAll pending =
        [⟨.update, .text "a", some (.timestamp 3)⟩, ⟨.delete, .text "b", none⟩] ∧
      EntryChange.applyAll (EntryAccumulator.buildAll pending) [(.text "a", .timestamp 0)] =
        [(.text "a", .timestamp 3)] := by
  obtain ⟨hmembers, hentries⟩ := gathered_changes_replay
  obtain ⟨members, hgathered, hbuild, hreplay⟩ := hmembers rejoining
  obtain ⟨entries, hgathered', hbuild', hreplay'⟩ := hentries resetting
  have hvalued : ∀ c ∈ resetting, c.Valued := by
    simp [resetting, EntryChange.Valued, Datum.isPlain]
  refine ⟨⟨members, hgathered, ?_, ?_⟩, entries, hgathered', ?_, ?_⟩
  · rw [hbuild]
    decide
  · rw [hreplay _ (List.pairwise_singleton _ _)]
    decide
  · rw [hbuild']
    decide
  · rw [hreplay' hvalued _ (List.pairwise_singleton _ _) (by decide)]
    decide

end VersionedRecords
