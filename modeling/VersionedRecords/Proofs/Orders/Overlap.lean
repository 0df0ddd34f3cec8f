import Mathlib.Data.List.Induction
import VersionedRecords.Proofs.Orders.Commits

/-!
Sessions that overlap.

Several drafts may be open on a book at once, and each of them is committed when its turn comes, so
other commits may come between the opening of a draft and its own commit.  The book then stores all
that the draft builds, but the change that the commit tells leads there from the order that the
draft was begun over.  A replica that gets the changes stays in step exactly as long as every
committed draft is undisturbed: what it builds agrees with what is stored wherever it agrees with
what it was begun over.
-/

namespace VersionedRecords.Orders

/-- A book with the drafts that are open on it, and a replica that gets what commits tell. -/
structure Desk where
  primary : OrderBook
  replica : OrderBook
  drafts : List Draft

/-- What happens at a desk. -/
inductive Act
  /-- Opens a draft over the stored order. -/
  | edit (key : Key)
  /-- Opens a draft of an order from nothing. -/
  | begin (key : Key)
  /-- Edits an open draft. -/
  | change (index : Nat) (e : Edit)
  /-- Commits a draft, which stays open, and passes on what the commit tells. -/
  | commit (index : Nat) (stamp replicaStamp : Nat)

/-- Edits can be asked of drafts of orders. -/
def Act.Fits : Act → Prop
  | .change _ e => e.Fits models order
  | _ => True

namespace Desk

/-- Commits a draft and applies what the commit tells to the replica. -/
def commit (k : Desk) (d : Draft) (stamp replicaStamp : Nat) : Except IdentityMismatch Desk :=
  match k.primary.commit stamp d with
  | (primary, none) => .ok { k with primary }
  | (primary, some c) => do
    let replica ← k.replica.apply replicaStamp c
    return { k with primary, replica }

def step (k : Desk) : Act → Except IdentityMismatch Desk
  | .edit key => .ok { k with drafts := k.drafts ++ [k.primary.edit key] }
  | .begin key => .ok { k with drafts := k.drafts ++ [.new order key] }
  | .change i e => .ok { k with drafts := k.drafts.modify i fun d => (e.run d).1 }
  | .commit i stamp replicaStamp =>
    match k.drafts[i]? with
    | some d => k.commit d stamp replicaStamp
    | none => .ok k

def run (k : Desk) (acts : List Act) : Except IdentityMismatch Desk := acts.foldlM step k

/-- The replica holds what the book holds. -/
def InStep (k : Desk) : Prop := k.replica.same k.primary = true

/-- Nothing has happened to the order behind a draft that the act commits which the draft does not
set right. -/
def Undisturbed (k : Desk) : Act → Prop
  | .commit i stamp _ => ∀ d ∈ k.drafts[i]?,
    d.diff = none ∨ OrderBook.Undisturbed d stamp (k.primary.values d.key)
  | _ => True

/-- Both books are sound, and the open drafts are drafts of orders. -/
structure Sound (k : Desk) : Prop where
  primary : k.primary.Sound
  replica : k.replica.Sound
  drafts : ∀ d ∈ k.drafts, ∃ key, OrderBook.DraftOf key d

/-! ### One act -/

variable {k : Desk}

theorem Sound.inStep_iff (hk : k.Sound) :
    k.InStep ↔ ∀ j, k.replica.content j = k.primary.content j :=
  OrderBook.same_iff_content_eq hk.replica hk.primary

theorem Sound.commit_of_told (hk : k.Sound) {d : Draft} (hd : OrderBook.DraftOf d.key d)
    {c : Change} (hc : d.diff = some c) (stamp replicaStamp : Nat) :
    ∃ k', k.commit d stamp replicaStamp = .ok k' ∧ k'.Sound ∧
      k'.primary.content d.key = d.content ∧
      k'.replica.content d.key = (c.applyTo (k.replica.edit d.key)).content ∧
      ∀ j, d.key ≠ j → k'.primary.content j = k.primary.content j ∧
        k'.replica.content j = k.replica.content j := by
  obtain ⟨hidentity, -⟩ := hd.of_diff hc
  have hkey : c.key = d.key := congrArg Identity.key hidentity
  have happlied := hk.replica.draftOf_applyTo (congrArg Identity.layout hidentity)
    (hd.conforms_of_diff hc)
  rw [hkey] at happlied
  obtain ⟨hprimary, hpcontent⟩ := hk.primary.store_build hd stamp
  obtain ⟨hreplica, hrcontent⟩ := hk.replica.store_build happlied replicaStamp
  have happly := hk.replica.apply_eq replicaStamp c
  rw [hkey] at happly
  refine ⟨⟨k.primary.store d.key (d.build stamp), k.replica.store d.key
    ((c.applyTo (k.replica.edit d.key)).build replicaStamp), k.drafts⟩, ?_,
    ⟨hprimary, hreplica, hk.drafts⟩, ?_, ?_, fun j hj => ⟨?_, ?_⟩⟩
  · rw [Desk.commit, OrderBook.commit_of_told hc]
    dsimp only
    rw [happly]
    rfl
  · rw [hpcontent, if_pos rfl]
  · rw [hrcontent, if_pos rfl]
  · rw [hpcontent, if_neg hj]
  · rw [hrcontent, if_neg hj]

/-- A commit keeps the replica in step exactly if the draft is undisturbed. -/
theorem Sound.commit (hk : k.Sound) {d : Draft} (hd : OrderBook.DraftOf d.key d)
    (stamp replicaStamp : Nat) :
    ∃ k', k.commit d stamp replicaStamp = .ok k' ∧ k'.Sound ∧
      (k.InStep → (k'.InStep ↔
        d.diff = none ∨ OrderBook.Undisturbed d stamp (k.primary.values d.key))) := by
  cases hdiff : d.diff with
  | none =>
      refine ⟨k, ?_, hk, fun hstep => iff_of_true hstep (.inl rfl)⟩
      rw [Desk.commit, OrderBook.commit_of_silent hdiff]
  | some c =>
      obtain ⟨k', hcommit, hsound, hprimary, hreplica, hother⟩ :=
        hk.commit_of_told hd hdiff stamp replicaStamp
      refine ⟨k', hcommit, hsound, fun hstep => ?_⟩
      have hsame := hk.inStep_iff.1 hstep
      rw [← hd.undisturbed_congr stamp hk.replica hk.primary (hsame d.key),
        ← hd.content_applyTo_iff hk.replica hdiff stamp, hsound.inStep_iff, ← hreplica, ← hprimary]
      constructor
      · exact fun h => .inr (h d.key)
      · rintro (hnone | hkey) j
        · cases hnone
        · by_cases hj : d.key = j
          · exact hj ▸ hkey
          · rw [(hother j hj).1, (hother j hj).2]
            exact hsame j

/-- Opening and editing drafts leaves both books as they are. -/
theorem Sound.withDrafts (hk : k.Sound) {drafts : List Draft}
    (hdrafts : ∀ d ∈ drafts, ∃ key, OrderBook.DraftOf key d) :
    ∃ k', Except.ok (ε := IdentityMismatch) { k with drafts } = .ok k' ∧ k'.Sound ∧
      (k.InStep → (k'.InStep ↔ True)) :=
  ⟨{ k with drafts }, rfl, ⟨hk.primary, hk.replica, hdrafts⟩,
    fun hstep => iff_of_true hstep trivial⟩

/-- Every act can be done, and only the commit of a disturbed draft brings the replica out of
step. -/
theorem Sound.step (hk : k.Sound) {a : Act} (ha : a.Fits) :
    ∃ k', k.step a = .ok k' ∧ k'.Sound ∧ (k.InStep → (k'.InStep ↔ k.Undisturbed a)) := by
  cases a with
  | edit key =>
      refine hk.withDrafts fun d hd => ?_
      rcases List.mem_append.1 hd with hd | hd
      · exact hk.drafts d hd
      · obtain rfl := List.mem_singleton.1 hd
        exact ⟨key, hk.primary.draftOf_edit key⟩
  | begin key =>
      refine hk.withDrafts fun d hd => ?_
      rcases List.mem_append.1 hd with hd | hd
      · exact hk.drafts d hd
      · obtain rfl := List.mem_singleton.1 hd
        exact ⟨key, OrderBook.draftOf_new key⟩
  | change i e =>
      refine hk.withDrafts fun d hd => ?_
      obtain ⟨j, hj⟩ := List.mem_iff_getElem?.1 hd
      rw [List.getElem?_modify] at hj
      obtain ⟨d', hd', rfl⟩ := Option.map_eq_some_iff.1 hj
      obtain ⟨key, hdraft⟩ := hk.drafts d' (List.mem_of_getElem? hd')
      refine ⟨key, ?_⟩
      split
      · exact hdraft.run ha
      · exact hdraft
  | commit i stamp replicaStamp =>
      rw [Desk.step, Undisturbed]
      cases hd : k.drafts[i]? with
      | none => exact ⟨k, rfl, hk, fun hstep => iff_of_true hstep (by simp)⟩
      | some d =>
          obtain ⟨key, hdraft⟩ := hk.drafts d (List.mem_of_getElem? hd)
          obtain rfl := hdraft.key_eq
          simpa using hk.commit hdraft stamp replicaStamp

/-! ### Whole runs -/

theorem Sound.run (hk : k.Sound) {acts : List Act} (hacts : ∀ a ∈ acts, a.Fits) :
    ∃ k', k.run acts = .ok k' ∧ k'.Sound := by
  induction acts generalizing k with
  | nil => exact ⟨k, rfl, hk⟩
  | cons a acts ih =>
      rw [List.forall_mem_cons] at hacts
      obtain ⟨k', hstep, hk', -⟩ := hk.step hacts.1
      obtain ⟨k'', hrun, hk''⟩ := ih hk' hacts.2
      refine ⟨k'', ?_, hk''⟩
      rw [Desk.run, List.foldlM_cons, hstep]
      exact hrun

theorem run_append_singleton {k k' : Desk} {acts : List Act} (hrun : k.run acts = .ok k')
    (a : Act) : k.run (acts ++ [a]) = k'.step a := by
  have hrun' : acts.foldlM step k = .ok k' := hrun
  rw [run, List.foldlM_append, hrun']
  exact bind_pure (k'.step a)

/-- A replica that began as the book and gets every change that is told stays in step, however
sessions overlap, exactly if every draft that is committed is undisturbed. -/
theorem inStep_iff_undisturbed {primary replica : OrderBook} (hp : primary.Reachable)
    (hr : replica.Reachable) (hstart : replica.same primary = true) {acts : List Act}
    (hacts : ∀ a ∈ acts, a.Fits) :
    (∃ k, run ⟨primary, replica, []⟩ acts = .ok k) ∧
    ((∀ before k, before <+: acts → run ⟨primary, replica, []⟩ before = .ok k → k.InStep) ↔
      ∀ before a k, before ++ [a] <+: acts → run ⟨primary, replica, []⟩ before = .ok k →
        k.Undisturbed a) := by
  have hsound : Sound ⟨primary, replica, []⟩ := ⟨hp.sound, hr.sound, by simp⟩
  have hfits : ∀ before, before <+: acts → ∀ a ∈ before, a.Fits :=
    fun before hbefore a ha => hacts a (hbefore.subset ha)
  have hstep : ∀ before a k, before ++ [a] <+: acts → run ⟨primary, replica, []⟩ before = .ok k →
      k.InStep → ∃ k', run ⟨primary, replica, []⟩ (before ++ [a]) = .ok k' ∧
        (k'.InStep ↔ k.Undisturbed a) := by
    intro before a k hprefix hrun hin
    obtain ⟨k', hrun', hk⟩ := hsound.run (hfits before ((List.prefix_append _ _).trans hprefix))
    obtain rfl : k' = k := Except.ok.inj (hrun'.symm.trans hrun)
    obtain ⟨k'', hdone, -, hiff⟩ := hk.step (hfits _ hprefix a (by simp))
    exact ⟨k'', (run_append_singleton hrun a).trans hdone, hiff hin⟩
  refine ⟨?_, ?_, ?_⟩
  · obtain ⟨k, hrun, -⟩ := hsound.run hacts
    exact ⟨k, hrun⟩
  · intro hin before a k hprefix hrun
    have hbefore := (List.prefix_append before [a]).trans hprefix
    obtain ⟨k', hrun', hiff⟩ := hstep before a k hprefix hrun (hin before k hbefore hrun)
    exact hiff.1 (hin _ k' hprefix hrun')
  · intro hundisturbed before
    induction before using List.reverseRecOn with
    | nil =>
        rintro k - hrun
        cases hrun
        exact hstart
    | append_singleton before a ih =>
        intro k hprefix hrun
        have hbefore := (List.prefix_append before [a]).trans hprefix
        obtain ⟨k', hrun', -⟩ := hsound.run (hfits before hbefore)
        obtain ⟨k'', hdone, hiff⟩ := hstep before a k' hprefix hrun' (ih k' hbefore hrun')
        obtain rfl : k'' = k := Except.ok.inj (hdone.symm.trans hrun)
        exact hiff.2 (hundisturbed before a k' hprefix hrun')

/-- Two drafts are opened over one order; the first one places it and the second one tags it. -/
def overlapping : List Act :=
  [.edit (.int 1), .commit 0 0 1, .edit (.int 1), .edit (.int 1),
    .change 1 (setScalar "status" (.variant "Placed")),
    .change 2 (.field "tags" (.insert (.text "gift"))), .commit 1 2 3, .commit 2 4 5]

theorem fits_overlapping : ∀ a ∈ overlapping, a.Fits := by
  simp [overlapping, Act.Fits, fits_setStatus, fits_insertTag]

/-- The book stores an order that is tagged but not placed; on the replica it is both. -/
theorem exists_not_inStep_overlapping :
    ∃ k, run ⟨.empty, .empty, []⟩ overlapping = .ok k ∧ ¬ k.InStep := by
  have hcomputed : ((run ⟨.empty, .empty, []⟩ overlapping).toOption.any fun k =>
      !k.replica.same k.primary) = true := by decide +kernel
  cases hrun : run ⟨.empty, .empty, []⟩ overlapping with
  | error e => simp [hrun, Except.toOption] at hcomputed
  | ok k => exact ⟨k, rfl, by simpa [hrun, Except.toOption, InStep] using hcomputed⟩

theorem inStep_iff_undisturbed_of_overlapping :
    ∃ before a k, before ++ [a] <+: overlapping ∧
      run ⟨.empty, .empty, []⟩ before = .ok k ∧ ¬ k.Undisturbed a := by
  have hempty := OrderBook.Reachable.empty.sound
  have hsame : OrderBook.empty.same .empty = true :=
    (OrderBook.same_iff_content_eq hempty hempty).2 fun _ => rfl
  obtain ⟨-, hiff⟩ := inStep_iff_undisturbed .empty .empty hsame fits_overlapping
  obtain ⟨k, hrun, hout⟩ := exists_not_inStep_overlapping
  by_contra hnone
  refine hout (hiff.2 (fun before a k hprefix hrun => ?_) overlapping k List.prefix_rfl hrun)
  by_contra hdisturbed
  exact hnone ⟨before, a, k, hprefix, hrun, hdisturbed⟩

/-- Shipping what commits tell does not keep a replica in step when sessions overlap. -/
theorem overlapping_not_inStep :
    ¬ ∀ acts : List Act, (∀ a ∈ acts, a.Fits) → ∀ before k, before <+: acts →
      run ⟨.empty, .empty, []⟩ before = .ok k → k.InStep := by
  intro hall
  obtain ⟨k, hrun, hout⟩ := exists_not_inStep_overlapping
  exact hout (hall overlapping fits_overlapping overlapping k List.prefix_rfl hrun)

end Desk

end VersionedRecords.Orders
