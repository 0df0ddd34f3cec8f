import VersionedRecords.Proofs.References

/-!
Deleted drafts.

A draft is deleted while the last that it was told about the record as a whole is a deletion.  It
then builds nothing, whatever is done to its fields, until it is emptied or told something else.
Building a draft and comparing it leave it as it is, so there are no edits for these.  A deletion
leaves nothing behind either: a change applied after it meets the same fields as in a draft begun
from nothing.
-/

namespace VersionedRecords

/-- The edit deletes the record under the key. -/
def Edit.Deletes (key : Key) : Edit → Prop
  | .apply c => c.key = key ∧ c.intent = .delete
  | .setLastIntent i => i = some .delete
  | _ => False

/-- After the edit the record under the key is not deleted, even if it was before. -/
def Edit.Revives (key : Key) : Edit → Prop
  | .reset => True
  | .apply c => c.key = key ∧ c.intent ≠ .delete
  | .setLastIntent i => i ≠ some .delete
  | _ => False

/-- What one edit does about deletion. -/
theorem Edit.lastIntent_run_iff (e : Edit) (d : Draft) :
    (e.run d).1.lastIntent = some .delete ↔
      e.Deletes d.key ∨ d.lastIntent = some .delete ∧ ¬e.Revives d.key := by
  cases e with
  | reset => simp [Edit.run, Draft.reset, Deletes, Revives]
  | materialise => simp [Edit.run, Draft.materialise_eq, Deletes, Revives]
  | setLastIntent i =>
      by_cases hi : i = some .delete <;>
        simp [Edit.run, Draft.setLastIntent, Deletes, Revives, hi]
  | apply c =>
      rw [Edit.run_apply]
      by_cases hkey : d.key = c.key
      · by_cases hdelete : c.intent = .delete <;>
          simp [Deletes, Revives, Change.applyTo_eq, Draft.setLastIntent, hkey, hdelete]
      · simp [Deletes, Revives, hkey, Ne.symm hkey]
  | look => simp [Edit.run, Deletes, Revives]
  | field name e =>
      rcases Edit.run_field_cases name e d with ⟨-, hrun⟩ | ⟨i, s, -, -, hrun⟩ <;>
        simp [hrun, Deletes, Revives]

namespace Draft

variable {models : String → Layout}

theorem edited_append (d : Draft) (edits edits' : List Edit) :
    d.edited (edits ++ edits') = (d.edited edits).edited edits' :=
  List.foldl_append ..

theorem key_edited (edits : List Edit) (d : Draft) : (d.edited edits).key = d.key :=
  congrArg Identity.key (d.frame_edited edits).1

/-- After several edits a draft is deleted exactly if one of them deleted it, or it was deleted
before, and none has revived it since. -/
theorem lastIntent_edited_iff (edits : List Edit) (d : Draft) :
    (d.edited edits).lastIntent = some .delete ↔
      (∃ before e after, edits = before ++ e :: after ∧ e.Deletes d.key ∧
        ∀ f ∈ after, ¬f.Revives d.key) ∨
      d.lastIntent = some .delete ∧ ∀ e ∈ edits, ¬e.Revives d.key := by
  induction edits generalizing d with
  | nil => simp [edited]
  | cons e edits ih =>
      have hkey : (e.run d).1.key = d.key := congrArg Identity.key (e.frame_run d).1
      have hstep := ih (e.run d).1
      rw [hkey, e.lastIntent_run_iff] at hstep
      rw [show d.edited (e :: edits) = (e.run d).1.edited edits from rfl, hstep,
        List.forall_mem_cons]
      constructor
      · rintro (⟨before, f, after, rfl, hf, hafter⟩ | ⟨he | ⟨hd, he⟩, hedits⟩)
        · exact .inl ⟨e :: before, f, after, rfl, hf, hafter⟩
        · exact .inl ⟨[], e, edits, rfl, he, hedits⟩
        · exact .inr ⟨hd, he, hedits⟩
      · rintro (⟨before, f, after, hsplit, hf, hafter⟩ | ⟨hd, he, hedits⟩)
        · cases before with
          | nil =>
              obtain ⟨rfl, rfl⟩ := List.cons.inj hsplit
              exact .inr ⟨.inl hf, hafter⟩
          | cons g before =>
              obtain ⟨rfl, rfl⟩ := List.cons.inj hsplit
              exact .inl ⟨before, f, after, rfl, hf, hafter⟩
        · exact .inr ⟨.inr ⟨hd, he⟩, hedits⟩

/-- Deleted drafts, and no others, build nothing. -/
theorem buildAt_eq_none_iff (stamp : Nat) (path : List Nat) (d : Draft) :
    d.buildAt stamp path = none ↔ d.lastIntent = some .delete := by
  have hdeleted : d.isDeleted = true ↔ d.lastIntent = some .delete := beq_iff_eq
  rw [← hdeleted, buildAt_eq]
  split
  · next h => simp [h]
  · next h => split <;> simp [h]

/-- After a deletion a change leads to the draft that it leads to by itself, but for the reference.
-/
theorem applyTo_applyTo_of_delete {x y : Change} {d : Draft} (hdelete : x.intent = .delete)
    (hy : y.intent ≠ .delete) (hidentity : y.identity = d.identity) :
    y.applyTo (x.applyTo d) = { y.toDraft with reference := d.reference } := by
  simp only [Change.identity, identity, Identity.mk.injEq] at hidentity
  rw [Change.toDraft, Change.applyTo_eq y, Change.applyTo_eq y, if_neg hy, if_neg hy,
    Change.applyTo_eq x, if_pos hdelete]
  simp [setLastIntent, reset, Draft.new, hidentity]

/-- A deletion and a change after it leave the content that the change leads to by itself, whatever
was there before and whatever the deletion carries. -/
theorem Coherent.build_after_delete {d : Draft} (hd : d.Coherent models) {x y : Change}
    (hx : x.identity = d.identity) (hdelete : x.intent = .delete) (hy : y.identity = d.identity)
    (hyc : y.Conforms models) (hyd : y.intent ≠ .delete) (stamp stamp' : Nat) :
    ∃ gone back m m', d.apply x = .ok gone ∧ gone.build stamp = none ∧ gone.apply y = .ok back ∧
      back.build stamp = some m ∧ y.toDraft.build stamp' = some m' ∧ m.bare = m'.bare := by
  have hxkey : d.key = x.key := (congrArg Identity.key hx).symm
  have hidentity : y.identity = (x.applyTo d).identity :=
    hy.trans (Change.identity_applyTo x d).symm
  have hykey : (x.applyTo d).key = y.key := (congrArg Identity.key hidentity).symm
  have hgone : (x.applyTo d).Coherent models := by
    rw [Change.applyTo_eq, if_pos hdelete]
    exact coherent_setLastIntent (coherent_reset hd) _
  have hback := Change.keepsCoherence_of_conforms hyc _ hgone
    (congrArg Identity.layout hidentity).symm
  have halone := (Reachable.toDraft hyc).coherent
  have hdeleted : y.toDraft.isDeleted = false := by
    simp [Change.toDraft, Change.applyTo_eq, hyd, isDeleted]
  have hsame : (y.applyTo (x.applyTo d)).content = y.toDraft.content := by
    rw [applyTo_applyTo_of_delete hdelete hyd hy, content_eq, content_eq]
    rfl
  obtain ⟨m', hm', hcontent'⟩ := exists_build halone hdeleted stamp'
  have hnotDeleted : (y.applyTo (x.applyTo d)).isDeleted = false :=
    isDeleted_of_content (hsame.trans hcontent')
  obtain ⟨m, hm, hcontent⟩ := exists_build hback hnotDeleted stamp
  refine ⟨x.applyTo d, y.applyTo (x.applyTo d), m, m', ?_, ?_, ?_, hm, hm', ?_⟩
  · rw [apply_eq, if_pos hxkey]
  · rw [build, buildAt_eq_none_iff, Change.applyTo_eq, if_pos hdelete]
    rfl
  · rw [apply_eq, if_pos hykey]
  · rw [hcontent, hcontent'] at hsame
    exact Option.some.inj hsame

/-- A draft, at whatever depth it lies and whatever is done to it, builds nothing exactly while it
is deleted.  Only a deletion that is applied, or that it is told about, makes it so, and only
emptying it, another change that is applied, or being told otherwise makes it no longer so.  And
nothing survives a deletion. -/
theorem deletion_dominates {d e : Draft} (hd : d.Reachable models) (he : e.Within d) :
    (∀ edits stamp path, (e.edited edits).buildAt stamp path = none ↔
      (e.edited edits).lastIntent = some .delete) ∧
    (∀ edits f, (e.edited (edits ++ [f])).lastIntent = some .delete ↔
      f.Deletes e.key ∨ (e.edited edits).lastIntent = some .delete ∧ ¬f.Revives e.key) ∧
    (∀ edits, (e.edited edits).lastIntent = some .delete ↔
      (∃ before f after, edits = before ++ f :: after ∧ f.Deletes e.key ∧
        ∀ g ∈ after, ¬g.Revives e.key) ∨
      e.lastIntent = some .delete ∧ ∀ f ∈ edits, ¬f.Revives e.key) ∧
    ∀ {x y : Change}, x.identity = e.identity → x.intent = .delete → y.identity = e.identity →
      y.Conforms models → y.intent ≠ .delete → ∀ stamp stamp',
        ∃ gone back m m', e.apply x = .ok gone ∧ gone.build stamp = none ∧
          gone.apply y = .ok back ∧ back.build stamp = some m ∧
          y.toDraft.build stamp' = some m' ∧ m.bare = m'.bare := by
  refine ⟨?built, ?step, ?run, ?left⟩
  case built => exact fun edits stamp path => buildAt_eq_none_iff stamp path (e.edited edits)
  case step =>
    intro edits f
    have hstep := f.lastIntent_run_iff (e.edited edits)
    rw [key_edited] at hstep
    rw [edited_append]
    exact hstep
  case run => exact fun edits => lastIntent_edited_iff edits e
  case left =>
    intro x y hx hdelete hy hyc hyd stamp stamp'
    exact (he.coherent hd.coherent).build_after_delete hx hdelete hy hyc hyd stamp stamp'

end Draft

namespace Samples

/-- A deletion of the root of a family, carrying a label that nothing comes of. -/
def labelledDeletion : Change :=
  ⟨node, .delete, .int 1, [some (.scalar (.key (.text "ghost"))), none]⟩

def twigLabelling : Change :=
  ⟨node, .update, .int 1, [some (.scalar (.key (.text "twig"))), none]⟩

theorem conforms_twigLabelling : twigLabelling.Conforms nodes := by
  refine Change.conforms_iff.2 (.cons ?_ (.cons ?_ .nil))
  · rintro _ ⟨⟩
    trivial
  · simp

end Samples

/-- Setting the label of the deleted root and touching everything below does not bring it back, and
the change that does finds neither the old child nor either label. -/
theorem Draft.deletion_dominates_of_family :
    ((Samples.family "leaf").edit.edited
      [.apply Samples.labelledDeletion, .field "label" (.set (.scalar (.key (.text "ghost")))),
        .materialise]).build 1 = none ∧
    ∃ gone back m m', (Samples.family "leaf").edit.apply Samples.labelledDeletion = .ok gone ∧
      gone.build 1 = none ∧ gone.apply Samples.twigLabelling = .ok back ∧
      back.build 1 = some m ∧ Samples.twigLabelling.toDraft.build 2 = some m' ∧
      m.bare = m'.bare := by
  obtain ⟨hbuilt, -, hrun, hleft⟩ :=
    deletion_dominates (.edit (Samples.conforms_family "leaf")) (.refl _)
  refine ⟨?_, hleft rfl rfl rfl Samples.conforms_twigLabelling (by decide) 1 2⟩
  rw [build, hbuilt, hrun]
  refine .inl ⟨[], .apply Samples.labelledDeletion, _, rfl, ⟨rfl, rfl⟩, ?_⟩
  simp [Edit.Revives]

end VersionedRecords
