import VersionedRecords.Proofs.DraftDifference
import VersionedRecords.Record.Attempt

/-!
What is refused.

Applying, merging and comparing check the keys of sub-records wherever they recurse, but each of
these checks is made of a sub-record that was chosen for its key, or of one that was begun with it.
So only the outermost check can fail, and it is made before anything is done.
-/

namespace VersionedRecords

namespace Attempt

variable {σ τ : Type}

@[simp] theorem map_done (f : σ → τ) (s : σ) : (done s).map f = done (f s) := rfl

@[simp] theorem andThen_done (s : σ) (putBack : σ → τ) (next : σ → Attempt τ) :
    (done s).andThen putBack next = next s := rfl

/-- The attempt is stopped exactly if there is a mismatch, and then nothing has been done. -/
def RefusedIff (a : Attempt σ) (before : σ) (mismatch : Prop) : Prop :=
  (a.stopped.isSome = true ↔ mismatch) ∧ (mismatch → a.left = before)

theorem refusedIff_ite {P : Prop} [Decidable P] (before after : σ) (e : IdentityMismatch) :
    (if P then ⟨before, some e⟩ else done after).RefusedIff before P := by
  by_cases h : P <;> simp [RefusedIff, h, done]

@[simp] theorem outcome_done (s : σ) : (done s).outcome = .ok s := rfl

theorem require_eq (operation : KeyedOperation) (expected found : Key) (s : σ) (next : Attempt σ) :
    require operation expected found s next =
      if expected = found then next else ⟨s, some ⟨operation, expected, found⟩⟩ := by
  rw [require, requireSameKey]
  split <;> rename_i h <;> split at h <;> simp_all

@[simp] theorem require_self (operation : KeyedOperation) (k : Key) (s : σ) (next : Attempt σ) :
    require operation k k s next = next := by
  rw [require_eq, if_pos rfl]

end Attempt

open Attempt

/-! ### Applying -/

namespace Change

/-- Nothing stops the change when it is applied to a draft with its key. -/
def Passes (c : Change) : Prop := ∀ d : Draft, d.key = c.key → c.tryApply d = done (c.applyTo d)

theorem Passes.toDraft {c : Change} (h : c.Passes) :
    c.tryApply (.new c.layout c.key) = done c.toDraft :=
  h _ rfl

theorem tryApplyEntries_eq {cs : List (RecordEntryChange Change)}
    (ih : ∀ c ∈ cs, c.change.Passes) (es : Keyed Draft) :
    tryApplyEntries cs es = done (applyEntries cs es) := by
  induction cs generalizing es with
  | nil => rw [tryApplyEntries, applyEntries]
  | cons c cs ihcs =>
      rw [List.forall_mem_cons] at ih
      have hrest := ihcs ih.2
      rw [tryApplyEntries, applyEntries]
      by_cases hdelete : c.intent = .delete
      · simp only [hdelete, if_true, hrest]
      · simp only [hdelete, if_false]
        cases hfind : Keyed.find? c.key es with
        | none =>
            simp only [ih.1.toDraft, andThen_done, hrest]
            rfl
        | some d =>
            by_cases hheld : c.change.intent ≠ .add ∧ d.identity = c.change.identity
            · simp only [if_pos hheld, ih.1 d (congrArg Identity.key hheld.2), andThen_done, hrest]
            · simp only [if_neg hheld, ih.1.toDraft, andThen_done, hrest]
              rfl

theorem tryApplyPayload_eq {p : Payload Change} (ih : ∀ c ∈ p.changes, c.Passes)
    (w : Working Draft) : tryApplyPayload p w = done (applyPayload p w) := by
  cases p with
  | nested c =>
      have hc := ih c (by simp [Payload.changes])
      cases w with
      | nested d =>
          cases d with
          | none =>
              rw [tryApplyPayload, applyPayload, hc.toDraft, andThen_done]
              · rfl
              · simp
              · simp
          | some d =>
              rw [tryApplyPayload, applyPayload]
              by_cases hheld : c.intent ≠ .add ∧ d.identity = c.identity
              · rw [if_pos hheld, if_pos hheld, hc d (congrArg Identity.key hheld.2), map_done]
              · rw [if_neg hheld, if_neg hheld, hc.toDraft, andThen_done]
                rfl
      | _ =>
          rw [tryApplyPayload, applyPayload, hc.toDraft, andThen_done]
          · rfl
          · simp
          · simp
  | modelMap cs =>
      have hcs := tryApplyEntries_eq fun c hc => ih c.change (List.mem_map_of_mem hc)
      cases w <;> simp [tryApplyPayload, applyPayload, hcs]
  | _ => cases w <;> simp [tryApplyPayload, applyPayload]

theorem tryApplyFields_eq {ps : List (Option (Payload Change))}
    (ih : ∀ p, some p ∈ ps → ∀ c ∈ p.changes, c.Passes) (slots : List (Slot Snapshot Draft)) :
    tryApplyFields ps slots = done (applyFields ps slots) := by
  induction ps generalizing slots with
  | nil => simp [tryApplyFields, applyFields]
  | cons p ps ihps =>
      have hrest := ihps fun p hp => ih p (List.mem_cons_of_mem _ hp)
      cases slots with
      | nil => cases p <;> simp [tryApplyFields, applyFields]
      | cons s slots =>
          cases p with
          | none => rw [tryApplyFields, applyFields, hrest, map_done]
          | some p =>
              have hp := tryApplyPayload_eq (ih p (by simp)) s.working
              rw [tryApplyFields, applyFields, hp, andThen_done, hrest, map_done]

theorem passes (c : Change) : c.Passes := by
  induction c using Change.induction with
  | step c ih =>
      rintro d hkey
      have hfields := tryApplyFields_eq ih d.slots
      obtain ⟨layout, intent, key, fields⟩ := c
      dsimp only at hkey hfields
      rw [tryApply, applyTo, hkey, require_self, hfields, map_done]
      split <;> rfl

/-- A change is refused by drafts with another key, before anything is done to them. -/
theorem tryApply_eq (c : Change) (d : Draft) :
    c.tryApply d =
      if d.key = c.key then done (c.applyTo d) else ⟨d, some ⟨.apply, d.key, c.key⟩⟩ := by
  split
  · next hkey => exact c.passes d hkey
  · next hkey =>
    obtain ⟨layout, intent, key, fields⟩ := c
    rw [tryApply, require_eq, if_neg hkey]

end Change

/-! ### Merging -/

theorem MemberChange.tryMergeAll_eq (cs : List MemberChange) (pending : Keyed IntentState) :
    tryMergeAll cs pending = done (mergeAll cs pending) := by
  induction cs generalizing pending with
  | nil => rfl
  | cons c cs ih =>
      have hstep : c.tryMergeInto pending = done (c.mergeInto pending) := by
        rw [tryMergeInto, mergeInto]
        cases Keyed.find? c.key pending with
        | none => rfl
        | some s =>
            simp only [MemberAccumulator.add, requireSameKey, if_true]
            rfl
      rw [tryMergeAll, hstep, andThen_done, ih]
      rfl

theorem EntryChange.tryMergeAll_eq (cs : List EntryChange) (pending : Keyed EntryState) :
    tryMergeAll cs pending = done (mergeAll cs pending) := by
  induction cs generalizing pending with
  | nil => rfl
  | cons c cs ih =>
      have hstep : c.tryMergeInto pending = done (c.mergeInto pending) := by
        rw [tryMergeInto, mergeInto]
        cases Keyed.find? c.key pending with
        | none => rfl
        | some s =>
            simp only [EntryAccumulator.add, requireSameKey, if_true]
            rfl
      rw [tryMergeAll, hstep, andThen_done, ih]
      rfl

namespace Accumulator

/-- Nothing stops the change when it is merged into an accumulator with its key. -/
def Takes (c : Change) : Prop := ∀ a : Accumulator, a.key = c.key → tryMerge c a = done (absorb c a)

theorem tryMergeEntries_eq {cs : List (RecordEntryChange Change)} (ih : ∀ c ∈ cs, Takes c.change)
    (pending : Keyed (RecordEntryState Accumulator)) :
    tryMergeEntries cs pending = done (absorbEntries cs pending) := by
  induction cs generalizing pending with
  | nil => rw [tryMergeEntries, absorbEntries]
  | cons c cs ihcs =>
      obtain ⟨intent, key, change⟩ := c
      rw [List.forall_mem_cons] at ih
      have hrest := ihcs ih.2
      rw [tryMergeEntries, absorbEntries]
      cases hfind : Keyed.find? key pending with
      | none => simp only [hrest]
      | some s =>
          simp only [RecordEntryAccumulator.tryAdd, require_self]
          by_cases hsame : change.intent = .update ∧ s.pending.identity = change.identity
          · simp only [if_pos hsame, ih.1 s.pending (congrArg Identity.key hsame.2), map_done,
              andThen_done, hrest]
          · simp only [if_neg hsame, andThen_done, hrest]

theorem tryMergePayload_eq {p : Payload Change} (ih : ∀ c ∈ p.changes, Takes c)
    (q : Pending Accumulator) : tryMergePayload p q = done (absorbPayload p q) := by
  cases p with
  | nested c =>
      have hc := ih c (by simp [Payload.changes])
      cases q with
      | nested a =>
          cases a with
          | none => simp [tryMergePayload, absorbPayload]
          | some a =>
              rw [tryMergePayload, absorbPayload]
              by_cases hsame : c.intent = .update ∧ a.identity = c.identity
              · rw [if_pos hsame, if_pos hsame, hc a (congrArg Identity.key hsame.2), map_done]
              · rw [if_neg hsame, if_neg hsame]
      | _ => simp [tryMergePayload, absorbPayload]
  | modelMap cs =>
      have hcs := tryMergeEntries_eq fun c hc => ih c.change (List.mem_map_of_mem hc)
      cases q <;> simp [tryMergePayload, absorbPayload, hcs]
  | _ =>
      cases q <;> simp [tryMergePayload, absorbPayload, MemberChange.tryMergeAll_eq,
        EntryChange.tryMergeAll_eq]

theorem tryMergeFields_eq {ps : List (Option (Payload Change))}
    (ih : ∀ p, some p ∈ ps → ∀ c ∈ p.changes, Takes c) (qs : List (Pending Accumulator)) :
    tryMergeFields ps qs = done (absorbFields ps qs) := by
  induction ps generalizing qs with
  | nil => simp [tryMergeFields, absorbFields]
  | cons p ps ihps =>
      have hrest := ihps fun p hp => ih p (List.mem_cons_of_mem _ hp)
      cases qs with
      | nil => cases p <;> simp [tryMergeFields, absorbFields]
      | cons q qs =>
          cases p with
          | none => rw [tryMergeFields, absorbFields, hrest, map_done]
          | some p =>
              have hp := tryMergePayload_eq (ih p (by simp)) q
              rw [tryMergeFields, absorbFields, hp, andThen_done, hrest, map_done]

theorem takes (c : Change) : Takes c := by
  induction c using Change.induction with
  | step c ih =>
      rintro a hkey
      have hfields := tryMergeFields_eq ih a.fields
      obtain ⟨layout, intent, key, fields⟩ := c
      dsimp only at hkey hfields
      rw [tryMerge, absorb, hkey, require_self, hfields, map_done]

/-- A change is refused by accumulators with another key, before anything is merged. -/
theorem tryMerge_eq (c : Change) (a : Accumulator) :
    tryMerge c a =
      if a.key = c.key then done (absorb c a) else ⟨a, some ⟨.merge, a.key, c.key⟩⟩ := by
  split
  · next hkey => exact takes c a hkey
  · next hkey =>
    obtain ⟨layout, intent, key, fields⟩ := c
    rw [tryMerge, require_eq, if_neg hkey]

end Accumulator

/-- A change of another entry is refused, before anything is merged. -/
theorem RecordEntryAccumulator.tryAdd_eq (c : RecordEntryChange Change)
    (a : RecordEntryAccumulator) :
    tryAdd c a =
      if a.key = c.key then
        done { a with state := ⟨a.state.state.absorb c.intent,
          if c.change.intent = .update ∧ a.state.pending.identity = c.change.identity then
            Accumulator.absorb c.change a.state.pending
          else .ofChange c.change⟩ }
      else ⟨a, some ⟨.merge, a.key, c.key⟩⟩ := by
  obtain ⟨intent, key, change⟩ := c
  rw [tryAdd, require_eq]
  by_cases hsame : change.intent = .update ∧ a.state.pending.identity = change.identity
  · simp only [if_pos hsame, Accumulator.takes change a.state.pending
      (congrArg Identity.key hsame.2), map_done]
  · simp only [if_neg hsame]

namespace Accumulator

theorem tryAddField_eq (a : Accumulator) (i : Nat) (p : Payload Change) :
    a.tryAddField i p = done (a.addField i p) := by
  unfold tryAddField addField
  cases hq : a.fields[i]? with
  | none =>
      have hlength : a.fields.length ≤ i := by simpa using hq
      rw [List.modify_eq_self hlength]
      cases a
      rfl
  | some q =>
      dsimp only
      rw [tryMergePayload_eq fun c _ => takes c, map_done, List.modify_eq_set_getElem?, hq]
      rfl

/-! ### Comparing -/

theorem tryCollect_map_ok (ps : List (Option (Payload Change))) (qs : List (Pending Accumulator)) :
    tryCollect (ps.map .ok) qs = done (absorbFields ps qs) := by
  induction ps generalizing qs with
  | nil => simp [tryCollect, absorbFields]
  | cons p ps ih =>
      cases qs with
      | nil => cases p <;> simp [tryCollect, absorbFields]
      | cons q qs =>
          cases p with
          | none => simp [tryCollect, absorbFields, ih]
          | some p =>
              have hp := tryMergePayload_eq (p := p) (fun c _ => takes c) q
              simp [tryCollect, absorbFields, ih, hp]

theorem tryReconcile_map_ok (a : Accumulator) (key referenceKey : Key)
    (ps : List (Option (Payload Change))) :
    a.tryReconcile key referenceKey (ps.map .ok) =
      if key = a.key then
        if key = referenceKey then done { a with fields := absorbFields ps a.fields }
        else ⟨a, some ⟨.reconcile, key, referenceKey⟩⟩
      else ⟨a, some ⟨.reconcile, key, a.key⟩⟩ := by
  rw [tryReconcile, require_eq, require_eq, tryCollect_map_ok, map_done]

theorem tryGather_map_ok (layout : Layout) (intent : Intent) (key referenceKey : Key)
    (ps : List (Option (Payload Change))) :
    tryGather layout intent key referenceKey (ps.map .ok) =
      if key = referenceKey then .ok (gather layout intent key ps)
      else .error ⟨.reconcile, key, referenceKey⟩ := by
  rw [tryGather, tryReconcile_map_ok]
  simp only [start, if_true]
  split <;> rfl

end Accumulator

namespace Snapshot

/-- Nothing stops the deletion of the record. -/
def TearsDown (s : Snapshot) : Prop := s.tryTeardown s.key = .ok s.teardown

theorem tryTeardownEntries_eq {es : Keyed Snapshot} (ih : ∀ e ∈ es, e.2.TearsDown) :
    tryTeardownEntries es = .ok (teardownEntries es) := by
  induction es with
  | nil => rw [tryTeardownEntries, teardownEntries]
  | cons e es ihes =>
      rw [List.forall_mem_cons] at ih
      rw [tryTeardownEntries, teardownEntries, ih.1, ihes ih.2]
      cases e.2.teardown <;> rfl

theorem tryTeardownValue_eq {v : Value Snapshot} (ih : ∀ s ∈ v.records, s.TearsDown)
    (kind : FieldKind) : tryTeardownValue kind v = .ok (teardownValue kind v) := by
  cases v with
  | nested s =>
      cases s with
      | none => cases kind <;> simp [tryTeardownValue, teardownValue]
      | some s =>
          have hs : s.tryTeardown s.key = .ok s.teardown := ih s (by simp [Value.records])
          cases kind <;> simp [tryTeardownValue, teardownValue, hs, Except.map]
  | modelMap o es =>
      have hes := tryTeardownEntries_eq fun e he => ih e.2 (List.mem_map_of_mem he)
      cases kind <;> simp [tryTeardownValue, teardownValue, hes, Except.map]
  | _ => cases kind <;> simp [tryTeardownValue, teardownValue]

theorem tryTeardownFields_eq {vs : List (Value Snapshot)}
    (ih : ∀ v ∈ vs, ∀ s ∈ v.records, s.TearsDown) (kinds : List FieldKind) :
    tryTeardownFields kinds vs = (teardownFields kinds vs).map .ok := by
  induction vs generalizing kinds with
  | nil => cases kinds <;> simp [tryTeardownFields, teardownFields]
  | cons v vs ihvs =>
      rw [List.forall_mem_cons] at ih
      cases kinds with
      | nil => simp [tryTeardownFields, teardownFields]
      | cons kind kinds =>
          rw [tryTeardownFields, teardownFields, tryTeardownValue_eq ih.1, ihvs ih.2, List.map_cons]

theorem tearsDown (s : Snapshot) : s.TearsDown := by
  induction s using Snapshot.induction with
  | step s ih =>
      have hfields := tryTeardownFields_eq ih s.layout.kinds
      obtain ⟨layout, key, origin, fields⟩ := s
      dsimp only at hfields
      rw [TearsDown, tryTeardown, hfields, Accumulator.tryGather_map_ok, if_pos rfl, teardown]

theorem tryTeardown_eq {key : Key} {s : Snapshot} (hkey : key = s.key) :
    s.tryTeardown key = .ok s.teardown := by
  rw [hkey]
  exact s.tearsDown

/-- Nothing stops the comparison of the record with a reference that has its key. -/
def Compares (s : Snapshot) : Prop :=
  ∀ intent r, s.key = r.key → s.tryDiff intent r = .ok (s.diffFrom intent r.fields)

theorem Compares.add {s : Snapshot} (h : s.Compares) :
    s.tryDiff .add (.empty s.layout s.key .zero) = .ok (s.diffFrom .add s.layout.zeros) :=
  h _ _ rfl

theorem tryDiffEntries_eq (reference : Keyed Snapshot) {es : Keyed Snapshot}
    (ih : ∀ e ∈ es, e.2.Compares) :
    tryDiffEntries reference es = .ok (diffEntries reference es) := by
  induction es with
  | nil => rw [tryDiffEntries, diffEntries]
  | cons e es ihes =>
      obtain ⟨k, s⟩ := e
      rw [List.forall_mem_cons] at ih
      rw [tryDiffEntries, diffEntries_cons, entryDiff?, ihes ih.2]
      dsimp only
      cases Keyed.find? k reference with
      | none =>
          rw [changeFrom?, ih.1.add]
          rfl
      | some r =>
          by_cases hshared : r.isShared s = true
          · simp only [changeFrom?, hshared, if_true]
            rfl
          · by_cases hidentity : r.identity = s.identity
            · simp only [changeFrom?, hshared, hidentity, if_true,
                ih.1 .update r (congrArg Identity.key hidentity).symm]
              rfl
            · simp only [changeFrom?, hshared, hidentity, if_false, ih.1.add]
              rfl

theorem tryDiffValue_eq {v : Value Snapshot} (ih : ∀ s ∈ v.records, s.Compares)
    (r : Value Snapshot) : tryDiffValue r v = .ok (diffValue r v) := by
  cases v with
  | nested s =>
      cases r with
      | nested r =>
          cases s with
          | none =>
              cases r with
              | none => simp [tryDiffValue, diffValue]
              | some r => simp [tryDiffValue, diffValue, tryTeardown_eq, Except.map]
          | some s =>
              have hs := ih s (by simp [Value.records])
              cases r with
              | none => simp [tryDiffValue, diffValue, hs.add, Except.map]
              | some r =>
                  rw [tryDiffValue, diffValue]
                  split
                  · rfl
                  · split
                    · next hidentity =>
                      rw [hs .update r (congrArg Identity.key hidentity).symm]
                      rfl
                    · rw [hs.add]
                      rfl
      | _ => cases s <;> simp [tryDiffValue, diffValue]
  | modelMap o es =>
      have hes := fun reference => tryDiffEntries_eq reference fun e he =>
        ih e.2 (List.mem_map_of_mem he)
      have hgone := fun es => @tryTeardownEntries_eq es fun e _ => tearsDown e.2
      cases r with
      | modelMap o' es' =>
          rw [tryDiffValue, diffValue, hes, hgone]
          split <;> rfl
      | nested r => cases r <;> simp [tryDiffValue, diffValue]
      | _ => simp [tryDiffValue, diffValue]
  | _ =>
      cases r with
      | nested r => cases r <;> simp [tryDiffValue, diffValue]
      | _ => simp [tryDiffValue, diffValue]

theorem tryDiffFields_eq {vs : List (Value Snapshot)}
    (ih : ∀ v ∈ vs, ∀ s ∈ v.records, s.Compares) (rs : List (Value Snapshot)) :
    tryDiffFields rs vs = (diffFields rs vs).map .ok := by
  induction vs generalizing rs with
  | nil => cases rs <;> simp [tryDiffFields, diffFields]
  | cons v vs ihvs =>
      rw [List.forall_mem_cons] at ih
      cases rs with
      | nil => simp [tryDiffFields, diffFields]
      | cons r rs => rw [tryDiffFields, diffFields, tryDiffValue_eq ih.1, ihvs ih.2, List.map_cons]

theorem compares (s : Snapshot) : s.Compares := by
  induction s using Snapshot.induction with
  | step s ih =>
      intro intent r hkey
      have hfields := tryDiffFields_eq ih r.fields
      obtain ⟨layout, key, origin, fields⟩ := s
      dsimp only at hkey hfields
      rw [tryDiff, hfields, Accumulator.tryGather_map_ok, if_pos hkey, diffFrom]

end Snapshot

namespace Draft

/-- Nothing stops the comparison of the draft with a reference that has its key. -/
def Compares (d : Draft) : Prop :=
  ∀ intent r, d.key = r.key → d.tryDiff intent r = .ok (d.diffFrom intent r.fields)

theorem Compares.add {d : Draft} (h : d.Compares) :
    d.tryDiff .add (d.buildEmpty 0) = .ok (d.diffFrom .add d.layout.zeros) :=
  h _ _ rfl

theorem tryDiffEntries_eq (reference : Keyed Snapshot) {es : Keyed Draft}
    (ih : ∀ e ∈ es, e.2.Compares) :
    tryDiffEntries reference es = .ok (diffEntries reference es) := by
  induction es with
  | nil => rw [tryDiffEntries, diffEntries]
  | cons e es ihes =>
      obtain ⟨k, d⟩ := e
      rw [List.forall_mem_cons] at ih
      rw [tryDiffEntries, diffEntries_cons, entryDiff?, ihes ih.2]
      dsimp only
      by_cases hdeleted : d.isDeleted = true
      · simp only [hdeleted, if_true]; rfl
      · cases Keyed.find? k reference with
        | none =>
            simp only [hdeleted, ih.1.add]
            cases d.diffFrom .add d.layout.zeros <;> rfl
        | some r =>
            by_cases hidentity : r.identity = d.identity
            · simp only [hdeleted, hidentity, if_true,
                ih.1 .update r (congrArg Identity.key hidentity).symm]
              cases d.diffFrom .update r.fields <;> rfl
            · simp only [hdeleted, hidentity, if_false, ih.1.add]
              cases d.diffFrom .add d.layout.zeros <;> rfl

theorem tryDiffWorking_eq {w : Working Draft} (ih : ∀ d ∈ w.drafts, d.Compares)
    (r : Value Snapshot) : tryDiffWorking r w = .ok (diffWorking r w) := by
  cases w with
  | nested d =>
      cases r with
      | nested r =>
          cases d with
          | none =>
              cases r with
              | none => simp [tryDiffWorking, diffWorking]
              | some r => simp [tryDiffWorking, diffWorking, Snapshot.tryTeardown_eq, Except.map]
          | some d =>
              have hd := ih d (by simp [Working.drafts])
              cases r with
              | none =>
                  rw [tryDiffWorking, diffWorking, hd.add]
                  split <;> rfl
              | some r =>
                  rw [tryDiffWorking, diffWorking, Snapshot.tryTeardown_eq rfl]
                  split
                  · rfl
                  · split
                    · next hidentity =>
                      rw [hd .update r (congrArg Identity.key hidentity).symm]
                      rfl
                    · rw [hd.add]
                      rfl
      | _ => cases d <;> simp [tryDiffWorking, diffWorking]
  | modelMap es =>
      have hes := fun reference => tryDiffEntries_eq reference fun e he =>
        ih e.2 (List.mem_map_of_mem he)
      have hgone := fun es => @Snapshot.tryTeardownEntries_eq es fun e _ => e.2.tearsDown
      cases r with
      | modelMap o es' =>
          rw [tryDiffWorking, diffWorking, hes, hgone]
          rfl
      | nested r => cases r <;> simp [tryDiffWorking, diffWorking]
      | _ => simp [tryDiffWorking, diffWorking]
  | _ =>
      cases r with
      | nested r => cases r <;> simp [tryDiffWorking, diffWorking]
      | _ => simp [tryDiffWorking, diffWorking]

theorem tryDiffSlots_eq {slots : List (Slot Snapshot Draft)}
    (ih : ∀ w, Slot.touched w ∈ slots → ∀ d ∈ w.drafts, d.Compares) (rs : List (Value Snapshot)) :
    tryDiffSlots rs slots = (diffSlots rs slots).map .ok := by
  induction slots generalizing rs with
  | nil => cases rs <;> simp [tryDiffSlots, diffSlots]
  | cons s slots ihslots =>
      have hrest := ihslots fun w hw => ih w (List.mem_cons_of_mem _ hw)
      cases rs with
      | nil => simp [tryDiffSlots, diffSlots]
      | cons r rs =>
          rw [tryDiffSlots, diffSlots, hrest, List.map_cons]
          congr 1
          cases s with
          | deferred v =>
              rw [tryDiffSlot, diffSlot, Snapshot.tryDiffValue_eq fun s _ => s.compares]
          | touched w => rw [tryDiffSlot, diffSlot, tryDiffWorking_eq (ih w (by simp))]

theorem compares (d : Draft) : d.Compares := by
  induction d using Draft.induction with
  | step d ih =>
      intro intent r hkey
      have hslots := tryDiffSlots_eq ih r.fields
      obtain ⟨layout, key, reference, lastIntent, slots⟩ := d
      dsimp only at hkey hslots
      rw [tryDiff, hslots, Accumulator.tryGather_map_ok, if_pos hkey, diffFrom]

/-- A reference with another key is refused. -/
theorem tryDiff_eq (d : Draft) (intent : Intent) (r : Snapshot) :
    d.tryDiff intent r = d.diffAgainst intent r := by
  have hslots := @tryDiffSlots_eq d.slots (fun _ _ e _ => e.compares) r.fields
  obtain ⟨layout, key, reference, lastIntent, slots⟩ := d
  dsimp only at hslots
  rw [tryDiff, hslots, Accumulator.tryGather_map_ok, diffAgainst, requireSameKey, diffFrom]
  split <;> rfl

/-- An accumulator or a reference with another key is refused, before anything is merged. -/
theorem tryDiffInto_eq (d : Draft) (a : Accumulator) (r : Snapshot) :
    d.tryDiffInto a r =
      if d.key = a.key then
        if d.key = r.key then
          done { a with fields := Accumulator.absorbFields (diffSlots r.fields d.slots) a.fields }
        else ⟨a, some ⟨.reconcile, d.key, r.key⟩⟩
      else ⟨a, some ⟨.reconcile, d.key, a.key⟩⟩ := by
  rw [tryDiffInto, tryDiffSlots_eq fun _ _ e _ => e.compares, Accumulator.tryReconcile_map_ok]

variable {models : String → Layout} {d : Draft}

theorem Coherent.key_of_reference (hd : d.Coherent models) {r : Snapshot}
    (hr : d.reference = some r) : r.key = d.key :=
  congrArg Identity.key (hd.of_reference hr).1

theorem Coherent.key_of_build (hd : d.Coherent models) {stamp : Nat} {s : Snapshot}
    (hs : d.build stamp = some s) : s.key = d.key :=
  congrArg Identity.key (of_buildAt hd hs).1

theorem tryOwnDiff_eq (hd : d.Coherent models) : d.tryOwnDiff = .ok d.diff := by
  unfold tryOwnDiff diff
  cases hr : d.reference with
  | none => exact d.compares _ _ rfl
  | some r => exact d.compares _ _ (hd.key_of_reference hr).symm

theorem tryToChange_eq (hd : d.Coherent models) (intent : Intent) :
    d.tryToChange intent = .ok (d.toChange intent) := by
  have hbuilt : d.key = ((d.build 0).getD (d.buildEmpty 0)).key := by
    cases hs : d.build 0 with
    | none => rfl
    | some s => exact (hd.key_of_build hs).symm
  cases intent with
  | delete =>
      unfold tryToChange toChange
      cases d.buildsReference with
      | false => exact Snapshot.tryTeardown_eq hbuilt
      | true =>
          cases hr : d.reference with
          | none => exact Snapshot.tryTeardown_eq hbuilt
          | some r => exact Snapshot.tryTeardown_eq (hd.key_of_reference hr).symm
  | _ => exact d.compares _ _ rfl

end Draft

theorem Snapshot.tryToChange_eq (s : Snapshot) (intent : Intent) :
    s.tryToChange intent = .ok (s.toChange intent) := by
  cases intent with
  | delete => exact Snapshot.tryTeardown_eq rfl
  | _ => exact s.compares _ _ rfl

/-! ### All refusals -/

/-- Applying, merging and comparing are refused exactly if the outermost keys differ, and then leave
everything as it was.  Nothing that takes no second record is ever refused. -/
theorem refused_iff_key_ne (models : String → Layout) :
    (∀ (c : Change) (d : Draft), (c.tryApply d).RefusedIff d (d.key ≠ c.key) ∧
      (c.tryApply d).outcome = d.apply c) ∧
    (∀ (c : Change) (a : Accumulator), (Accumulator.tryMerge c a).RefusedIff a (a.key ≠ c.key) ∧
      (Accumulator.tryMerge c a).outcome = a.add c) ∧
    (∀ (c : RecordEntryChange Change) (a : RecordEntryAccumulator),
      (RecordEntryAccumulator.tryAdd c a).RefusedIff a (a.key ≠ c.key) ∧
      (RecordEntryAccumulator.tryAdd c a).outcome = a.add c) ∧
    (∀ (d : Draft) (a : Accumulator) (r : Snapshot),
      (d.tryDiffInto a r).RefusedIff a (d.key ≠ a.key ∨ d.key ≠ r.key) ∧
      (d.tryDiffInto a r).outcome = d.diffInto a r) ∧
    (∀ (d : Draft) (intent : Intent) (r : Snapshot),
      ((∃ e, d.tryDiff intent r = .error e) ↔ d.key ≠ r.key) ∧
      d.tryDiff intent r = d.diffAgainst intent r) ∧
    (∀ d : Draft, d.Reachable models → d.tryOwnDiff = .ok d.diff ∧
      ∀ intent, d.tryToChange intent = .ok (d.toChange intent)) ∧
    (∀ (s : Snapshot) (intent : Intent), s.tryToChange intent = .ok (s.toChange intent)) ∧
    (∀ c : Change, c.tryToDraft = .ok c.toDraft) ∧
    ∀ (a : Accumulator) (i : Nat) (p : Payload Change),
      a.tryAddField i p = done (a.addField i p) := by
  refine ⟨?_, ?_, ?_, ?_, ?_, ?_, Snapshot.tryToChange_eq, ?_, Accumulator.tryAddField_eq⟩
  · intro c d
    rw [c.tryApply_eq, ← ite_not]
    refine ⟨refusedIff_ite _ _ _, ?_⟩
    rw [Draft.apply, requireSameKey, ite_not]
    split <;> rfl
  · intro c a
    rw [Accumulator.tryMerge_eq, ← ite_not]
    refine ⟨refusedIff_ite _ _ _, ?_⟩
    rw [Accumulator.add, requireSameKey, ite_not]
    split <;> rfl
  · intro c a
    rw [RecordEntryAccumulator.tryAdd_eq, ← ite_not]
    refine ⟨refusedIff_ite _ _ _, ?_⟩
    rw [RecordEntryAccumulator.add, requireSameKey, ite_not]
    split <;> rfl
  · intro d a r
    rw [d.tryDiffInto_eq]
    by_cases ha : d.key = a.key
    · rw [if_pos ha, ← ite_not]
      refine ⟨by simpa [ha] using refusedIff_ite (P := d.key ≠ r.key) _ _ _, ?_⟩
      rw [Draft.diffInto, requireSameKey, requireSameKey, if_pos ha, ite_not]
      split <;> rfl
    · rw [if_neg ha]
      refine ⟨by simp [RefusedIff, ha], ?_⟩
      rw [Draft.diffInto, requireSameKey, if_neg ha]
      rfl
  · intro d intent r
    refine ⟨?_, d.tryDiff_eq intent r⟩
    rw [d.tryDiff_eq, Draft.diffAgainst, requireSameKey]
    by_cases hkey : d.key = r.key
    · simp [hkey, pure, Except.pure, bind, Except.bind]
    · simp [hkey, bind, Except.bind]
  · intro d hd
    exact ⟨Draft.tryOwnDiff_eq hd.coherent, Draft.tryToChange_eq hd.coherent⟩
  · intro c
    rw [Change.tryToDraft, c.passes.toDraft, outcome_done]

/-- The node below carries the key of another one, and the change is applied all the same. -/
theorem refused_iff_key_ne_of_forged :
    (Change.tryApply ⟨Samples.node, .update, .int 1, [none, some (.modelMap
      [⟨.update, .int 7, ⟨Samples.node, .update, .int 99, [none, none]⟩⟩])]⟩
        (Samples.family "leaf").edit).stopped = none ∧
    (Samples.family "leaf").edit.tryOwnDiff = .ok (Samples.family "leaf").edit.diff := by
  obtain ⟨happly, -, -, -, -, hown, -⟩ := refused_iff_key_ne Samples.nodes
  refine ⟨?_, (hown _ (.edit (Samples.conforms_family "leaf"))).1⟩
  rw [← Option.isNone_iff_eq_none, ← Option.isSome_eq_false_iff, ← Bool.not_eq_true,
    (happly _ _).1.1]
  simp [Samples.family, Samples.tree, Snapshot.edit]

end VersionedRecords
