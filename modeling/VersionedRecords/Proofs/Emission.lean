import VersionedRecords.Proofs.DiffingInto
import VersionedRecords.Proofs.Plainness

/-!
The order in which a comparison of two maps tells what it has found.

The documented order has three phases: deletions, additions, updates, each in ascending order.  What
is told comes in two runs.  The first are the deletions; the second goes through the current map
once and tells additions and updates as they come.  So the order is the documented one exactly if
every key that is added comes before every key that is updated.  In every other respect the promise
is kept: each key with a difference is told once, with the intent that it should have.
-/

namespace VersionedRecords

/-- The phase of the documented order in which an intent is told. -/
def Intent.phase : Intent → Nat
  | .delete => 0
  | .add => 1
  | .update => 2

namespace Keyed

variable {A B C : Type}

/-- What becomes of a key from one map to another: nothing if it is in neither or in both without a
difference. -/
def fate? (differs : A → B → Bool) (reference : Keyed A) (current : Keyed B) (k : Key) :
    Option Intent :=
  match find? k reference, find? k current with
  | none, none => none
  | none, some _ => some .add
  | some _, none => some .delete
  | some r, some v => if differs r v then some .update else none

section Orders

variable (intent : C → Intent) (key : C → Key)

/-- The documented order: deletions, then additions, then updates, each in ascending order. -/
def InPhases (cs : List C) : Prop :=
  cs.Pairwise fun c d => (intent c).phase < (intent d).phase ∨
    intent c = intent d ∧ (key c).precedes (key d) = true

/-- Deletions and then all the rest, both in ascending order. -/
def InRuns (cs : List C) : Prop :=
  cs.Pairwise fun c d => intent c = .delete ∧ intent d ≠ .delete ∨
    (intent c = .delete ↔ intent d = .delete) ∧ (key c).precedes (key d) = true

/-- The list tells of each key once what becomes of it, in two runs, and in the documented order
exactly if all additions come before all updates by their keys. -/
structure Emits (fate : Key → Option Intent) (cs : List C) : Prop where
  nodup : (cs.map key).Nodup
  told : ∀ k i, (∃ c ∈ cs, key c = k ∧ intent c = i) ↔ fate k = some i
  runs : InRuns intent key cs
  phases_iff : InPhases intent key cs ↔
    ∀ j k, fate j = some .add → fate k = some .update → j.precedes k = true

instance (cs : List C) : Decidable (InPhases intent key cs) :=
  inferInstanceAs (Decidable (List.Pairwise _ cs))

end Orders

variable {intent : C → Intent} {key : C → Key}

/-- Two runs are in phases if no update comes before an addition. -/
theorem InRuns.inPhases {cs : List C} (h : InRuns intent key cs)
    (hadded : ∀ c ∈ cs, ∀ d ∈ cs, intent c = .add → intent d = .update →
      (key c).precedes (key d) = true) : InPhases intent key cs := by
  refine List.Pairwise.imp_of_mem (fun {c d} hc hd hcd => ?_) h
  rcases hcd with ⟨hdelete, hrest⟩ | ⟨hsame, hkeys⟩
  · left
    rw [hdelete]
    cases hi : intent d <;> simp_all [Intent.phase]
  · cases hi : intent c <;> cases hj : intent d <;> simp_all [Intent.phase]
    have hback := hadded d hd c hc hj hi
    rw [Key.precedes_asymm hkeys] at hback
    cases hback

/-- In phases as well as in runs, additions come before updates by their keys. -/
theorem InRuns.precedes_of_inPhases {cs : List C} (hruns : InRuns intent key cs)
    (h : InPhases intent key cs) : ∀ c ∈ cs, ∀ d ∈ cs, intent c = .add → intent d = .update →
      (key c).precedes (key d) = true := by
  refine List.Pairwise.forall_of_forall_of_flip (fun c _ hadd hupdate => ?_)
    (hruns.imp fun {c d} hcd hadd hupdate => ?_) (h.imp fun {c d} hcd hadd hupdate => ?_)
  · rw [hadd] at hupdate
    cases hupdate
  · simpa [hadd, hupdate] using hcd
  · -- the update stands first, which the phases rule out
    simp [hadd, hupdate, Intent.phase] at hcd

/-- Whatever tells of a table what becomes of each key, in two runs. -/
theorem Emits.of_tabulates {f : Key → Option C} {cs : List C} (h : Tabulates key f cs)
    {fate : Key → Option Intent} (hfate : ∀ k, (f k).map intent = fate k)
    (hruns : InRuns intent key cs) : Emits intent key fate cs where
  nodup := h.nodup
  told k i := by
    rw [← hfate, Option.map_eq_some_iff]
    constructor
    · rintro ⟨c, hc, hk, hi⟩
      exact ⟨c, (h.mem_iff k c).2 ⟨hc, hk⟩, hi⟩
    · rintro ⟨c, hc, hi⟩
      obtain ⟨hmem, hk⟩ := (h.mem_iff k c).1 hc
      exact ⟨c, hmem, hk, hi⟩
  runs := hruns
  phases_iff := by
    have htold : ∀ k i, fate k = some i ↔ ∃ c ∈ cs, key c = k ∧ intent c = i := by
      intro k i
      rw [← hfate, Option.map_eq_some_iff]
      simp only [h.mem_iff, and_assoc]
    simp only [htold]
    constructor
    · rintro hphases j k ⟨c, hc, rfl, hadd⟩ ⟨d, hd, rfl, hupdate⟩
      exact hruns.precedes_of_inPhases hphases c hc d hd hadd hupdate
    · intro hadded
      refine hruns.inPhases fun c hc d hd hadd hupdate => ?_
      exact hadded _ _ ⟨c, hc, rfl, hadd⟩ ⟨d, hd, rfl, hupdate⟩

theorem inRuns_append {ds cs : List C} (hds : Sorted key ds) (hcs : Sorted key cs)
    (hdelete : ∀ c ∈ ds, intent c = .delete) (hkeep : ∀ c ∈ cs, intent c ≠ .delete) :
    InRuns intent key (ds ++ cs) := by
  refine List.pairwise_append.2 ⟨?_, ?_, fun c hc d hd => .inl ⟨hdelete c hc, hkeep d hd⟩⟩
  · exact hds.imp_of_mem fun hc hd h => .inr ⟨iff_of_true (hdelete _ hc) (hdelete _ hd), h⟩
  · exact hcs.imp_of_mem fun hc hd h => .inr ⟨iff_of_false (hkeep _ hc) (hkeep _ hd), h⟩

/-- Telling first of the entries that are gone and then of those that are there. -/
theorem emits_append {differs : A → B → Bool} {reference : Keyed A} {current : Keyed B}
    (hr : Ascending reference) (hc : Ascending current) {gone : Key × A → Option C}
    {there : Key × B → Option C} (hgone : ∀ e c, gone e = some c → key c = e.1)
    (hthere : ∀ e c, there e = some c → key c = e.1)
    (hdelete : ∀ e, (gone e).map intent = some .delete)
    (hintent : ∀ e ∈ current, (there e).map intent = (find? e.1 reference).elim (some .add)
      fun r => if differs r e.2 then some .update else none) :
    Emits intent key (fate? differs reference current)
      ((reference.filter fun e => !has e.1 current).filterMap gone ++ current.filterMap there) := by
  refine .of_tabulates (tabulates_append hr hc gone there (fun e _ => hgone e) fun e _ => hthere e)
    (fun k => ?_) ?_
  · rw [fate?]
    cases hfind : find? k current with
    | some v =>
        rw [Option.elim_some, hintent (k, v) (mem_of_find? hfind)]
        cases find? k reference <;> rfl
    | none =>
        cases find? k reference with
        | none => rfl
        | some r => exact hdelete (k, r)
  · refine inRuns_append (sorted_filterMap hgone (hr.filter _)) (sorted_filterMap hthere hc)
      (fun c hmem => ?_) fun c hmem hi => ?_
    · obtain ⟨e, -, hec⟩ := List.mem_filterMap.1 hmem
      have h := hdelete e
      rw [hec] at h
      exact Option.some.inj h
    · obtain ⟨e, he, hec⟩ := List.mem_filterMap.1 hmem
      have h := hintent e he
      rw [hec, Option.map_some, hi] at h
      cases hfind : find? e.1 reference <;> simp_all

end Keyed

open Keyed

/-! ### The three comparisons -/

theorem EntryChange.emits_between {reference current : Keyed Datum} (hr : Ascending reference)
    (hc : Ascending current) :
    Emits intent key (fate? (fun r v => !r.same v) reference current)
      (between reference current) := by
  rw [between, ← List.filterMap_eq_map']
  refine emits_append hr hc ?_ key_of_ofPair? (fun _ => rfl) fun e _ => ?_
  · rintro e _ ⟨⟩
    rfl
  · rw [ofPair?]
    cases find? e.1 reference with
    | none => rfl
    | some r => cases hsame : r.same e.2 <;> simp [hsame]

namespace Snapshot

variable {models : String → Layout} {r s : Snapshot}

/-- There is something to tell of a record that was the one and is the other. -/
def differs (r s : Snapshot) : Bool := (fieldChange? (some r) (some s)).isSome

theorem fieldChange?_some (r : Option Snapshot) (s : Snapshot) :
    fieldChange? r (some s) = changeFrom? r s := by
  rw [fieldChange?, diffValue_nested_some]
  cases changeFrom? r s <;> rfl

/-- There is something to tell exactly if the contents differ. -/
theorem differs_iff (hr : r.Conforms models) (hs : s.Conforms models) (hrp : r.isPlain = true)
    (hsp : s.isPlain = true) : differs r s = true ↔ r.bare ≠ s.bare := by
  have hr' : ∀ t ∈ some r, t.Conforms models ∧ t.isPlain = true := by
    rintro _ ⟨⟩
    exact ⟨hr, hrp⟩
  rw [differs, fieldChange?_some, Option.isSome_iff_ne_none, Ne,
    changeFrom?_eq_none_iff hr' (diffsExactly_of_conforms hs hsp), Option.map_some,
    Option.some.injEq]

theorem emits_between {reference current : Keyed Snapshot} (hr : Ascending reference)
    (hc : Ascending current) :
    Emits RecordEntryChange.intent RecordEntryChange.key (fate? differs reference current)
      (RecordEntryChange.between reference current) := by
  rw [between_eq_append]
  refine emits_append hr hc key_of_entryTeardown? (key_of_entryDiff? reference) (fun e => ?_)
    fun e _ => ?_
  · obtain ⟨c, hc⟩ := Option.isSome_iff_exists.1 e.2.teardown_isSome
    rw [entryTeardown?, hc]
    rfl
  · rw [entryDiff?]
    cases find? e.1 reference with
    | none =>
        obtain ⟨c, hc⟩ := Option.isSome_iff_exists.1 (diffFrom_add_isSome e.2.layout.zeros e.2)
        rw [changeFrom?, hc]
        rfl
    | some r =>
        rw [Option.elim_some, differs, fieldChange?_some]
        cases changeFrom? (some r) e.2 <;> rfl

end Snapshot

namespace Draft

variable {models : String → Layout} {r : Snapshot} {d : Draft}

/-- There is something to tell of a record that was the one and is now being edited. -/
def differs (r : Snapshot) (d : Draft) : Bool := (fieldChange? (some r) (some d)).isSome

theorem fieldChange?_some (r : Snapshot) (hd : d.isDeleted = false) :
    fieldChange? (some r) (some d) = changeFrom? (some r) d := by
  rw [fieldChange?, diffWorking_nested_some, hd, if_neg Bool.false_ne_true]
  cases changeFrom? (some r) d <;> rfl

/-- There is something to tell exactly if building the draft gives another content. -/
theorem differs_iff (hr : r.Conforms models) (hrp : r.isPlain = true) (hd : d.Reachable models)
    (hdp : d.Plain) (hdeleted : d.isDeleted = false) (stamp : Nat) :
    differs r d = true ↔ (d.build stamp).map Snapshot.bare ≠ some r.bare := by
  obtain ⟨m, hm, hcontent⟩ := exists_build hd.coherent hdeleted stamp
  have hconforms := Snapshot.conforms_bare.1 (conforms_content hd.coherent hcontent)
  have hall : ∀ t ∈ some r, t.Conforms models ∧ t.isPlain = true := by
    rintro _ ⟨⟩
    exact ⟨hr, hrp⟩
  have hbuilt : ∀ t ∈ some m, t.Conforms models ∧ t.isPlain = true := by
    rintro _ ⟨⟩
    exact ⟨hconforms, (Snapshot.isPlain_bare m).symm.trans (isPlain_content hdp hcontent)⟩
  have hchange : changeFrom? (some r) d = Snapshot.recordChange? (some r) (some m) :=
    (changeFrom?_eq hall (diffsAsContent_of_coherent hd.coherent) hcontent).trans
      (Snapshot.recordChange?_bare (s := some m) hall fun t ht =>
        Snapshot.diffsByContent_of_conforms (hbuilt t ht).1)
  rw [differs, fieldChange?_some r hdeleted, Option.isSome_iff_ne_none, hchange, Ne,
    Snapshot.recordChange?_eq_none_iff hall hbuilt, hm, ne_comm]
  rfl

theorem diffFrom_add_isSome (base : List (Value Snapshot)) (d : Draft) :
    (d.diffFrom .add base).isSome = true := by
  rw [diffFrom_eq]
  exact Accumulator.gather_isSome (by decide)

theorem emits_betweenDrafts {reference : Keyed Snapshot} {current : Keyed Draft}
    (hr : Ascending reference) (hc : Ascending current) :
    Emits RecordEntryChange.intent RecordEntryChange.key (fate? differs reference (live current))
      (RecordEntryChange.betweenDrafts reference current) := by
  rw [betweenDrafts_eq_append reference hc]
  refine emits_append hr (ascending_live hc) Snapshot.key_of_entryTeardown?
    (key_of_entryDiff? reference) (fun e => ?_) fun e he => ?_
  · obtain ⟨c, hc⟩ := Option.isSome_iff_exists.1 e.2.teardown_isSome
    rw [Snapshot.entryTeardown?, hc]
    rfl
  · have hlive : e.2.isDeleted = false := by simpa using (List.mem_filter.1 he).2
    rw [entryDiff?_of_live reference hlive]
    cases find? e.1 reference with
    | none =>
        obtain ⟨c, hc⟩ := Option.isSome_iff_exists.1 (diffFrom_add_isSome e.2.layout.zeros e.2)
        rw [changeFrom?, hc]
        rfl
    | some r =>
        dsimp only [Option.elim_some]
        rw [differs, fieldChange?_some r hlive]
        cases changeFrom? (some r) e.2 <;> rfl

end Draft

namespace Samples

/-- Two entries. -/
def stamps : Keyed Datum := [(.text "a", .timestamp 1), (.text "c", .timestamp 2)]

/-- The second entry with another value, and a new one in place of the first. -/
def restamped : Keyed Datum := [(.text "b", .timestamp 3), (.text "c", .timestamp 4)]

/-- Two nodes. -/
def twigs : Keyed Snapshot := [(.int 1, tree 1 "twig" []), (.int 2, tree 2 "twig" [])]

/-- The first node with another label, and a new one. -/
def regrown : Keyed Snapshot := [(.int 1, tree 1 "leaf" []), (.int 3, tree 3 "leaf" [])]

/-- The same while they are edited, with the draft of the second node left there deleted. -/
def regrowing : Keyed Draft :=
  [(.int 1, (tree 1 "leaf" []).edit),
    (.int 2, (tree 2 "twig" []).edit.setLastIntent (some .delete)),
    (.int 3, (tree 3 "leaf" []).edit)]

theorem conforms_tree_nil (key : Int) (label : String) :
    (tree key label []).Conforms nodes ∧ (tree key label []).isPlain = true :=
  ⟨conforms_tree List.Pairwise.nil (by simp), isPlain_tree (by simp)⟩

end Samples

open Samples

end VersionedRecords
