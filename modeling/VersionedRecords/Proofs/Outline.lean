import VersionedRecords.Proofs.Patching
import VersionedRecords.Proofs.Views

/-!
The outline of drafts.

What a draft was begun over, and which change of it came last unless that was a deletion, has no
part in what the draft stands for.  The outline forgets both, in the draft and in all drafts below.
Unlike the content it keeps the drafts of deleted records.  So drafts of one outline have one
content, and after any further change they are again of one outline.
-/

namespace VersionedRecords

namespace Draft

mutual

/-- The draft without its reference and without its last change, unless that was a deletion, and so
all drafts below. -/
def outline : Draft → Draft
  | ⟨layout, key, _, lastIntent, slots⟩ =>
    ⟨layout, key, none, lastIntent.filter Intent.isDelete, outlineSlots slots⟩

def outlineSlots : List (Slot Snapshot Draft) → List (Slot Snapshot Draft)
  | [] => []
  | .deferred v :: slots => .deferred v :: outlineSlots slots
  | .touched w :: slots => .touched (outlineWorking w) :: outlineSlots slots

def outlineWorking : Working Draft → Working Draft
  | .nested none => .nested none
  | .nested (some d) => .nested (some (outline d))
  | .modelMap es => .modelMap (outlineEntries es)
  | w => w

def outlineEntries : List (Key × Draft) → List (Key × Draft)
  | [] => []
  | (k, d) :: es => (k, outline d) :: outlineEntries es

end

def outlineSlot : Slot Snapshot Draft → Slot Snapshot Draft
  | .deferred v => .deferred v
  | .touched w => .touched (outlineWorking w)

theorem outlineSlot_touched (w : Working Draft) :
    outlineSlot (.touched w) = .touched (outlineWorking w) :=
  rfl

theorem outlineSlots_eq_map (slots : List (Slot Snapshot Draft)) :
    outlineSlots slots = slots.map outlineSlot := by
  induction slots with
  | nil => simp [outlineSlots]
  | cons s slots ih => cases s <;> simp [outlineSlots, outlineSlot, ih]

theorem outlineWorking_nested (d : Option Draft) :
    outlineWorking (.nested d) = .nested (d.map outline) := by
  cases d <;> simp [outlineWorking]

theorem outlineEntries_eq_map (es : List (Key × Draft)) :
    outlineEntries es = es.map fun e => (e.1, e.2.outline) := by
  induction es with
  | nil => simp [outlineEntries]
  | cons e es ih => simp [outlineEntries, ih]

theorem filter_isDelete (i : Option Intent) :
    i.filter Intent.isDelete = if i == some .delete then some .delete else none := by
  cases i with
  | none => rfl
  | some i => cases i <;> rfl

theorem outline_eq (d : Draft) :
    d.outline = ⟨d.layout, d.key, none, d.lastIntent.filter Intent.isDelete,
      d.slots.map outlineSlot⟩ := by
  obtain ⟨layout, key, reference, lastIntent, slots⟩ := d
  rw [outline, outlineSlots_eq_map]

@[simp] theorem identity_outline (d : Draft) : d.outline.identity = d.identity := by
  rw [outline_eq]
  rfl

@[simp] theorem isDeleted_outline (d : Draft) : d.outline.isDeleted = d.isDeleted := by
  rw [outline_eq, filter_isDelete]
  unfold isDeleted
  split <;> simp_all

theorem outline_eq_iff {d e : Draft} :
    d.outline = e.outline ↔ d.identity = e.identity ∧ d.isDeleted = e.isDeleted ∧
      d.slots.map outlineSlot = e.slots.map outlineSlot := by
  constructor
  · intro h
    refine ⟨?_, ?_, ?_⟩
    · rw [← identity_outline d, h, identity_outline]
    · rw [← isDeleted_outline d, h, isDeleted_outline]
    · rw [outline_eq, outline_eq] at h
      exact congrArg slots h
  · rintro ⟨hidentity, hdeleted, hslots⟩
    obtain ⟨layout, key, reference, lastIntent, slots⟩ := d
    obtain ⟨layout', key', reference', lastIntent', slots'⟩ := e
    cases hidentity
    have hlast : lastIntent.filter Intent.isDelete = lastIntent'.filter Intent.isDelete := by
      rw [filter_isDelete, filter_isDelete]
      exact congrArg (fun b : Bool => if b then some Intent.delete else none) hdeleted
    rw [outline_eq, outline_eq]
    exact congrArg₂ (fun i ss => (⟨layout, key, none, i, ss⟩ : Draft)) hlast hslots

theorem outlineWorking_eq_map (w : Working Draft) : outlineWorking w = w.map outline := by
  cases w with
  | nested d => exact outlineWorking_nested d
  | modelMap es => rw [outlineWorking, outlineEntries_eq_map, Working.map]
  | _ => simp [outlineWorking, Working.map]

/-! ### The outline of an outline, and its content -/

theorem outlineSlot_idem_of {s : Slot Snapshot Draft}
    (ih : ∀ w, s = .touched w → ∀ d ∈ w.drafts, d.outline.outline = d.outline) :
    outlineSlot (outlineSlot s) = outlineSlot s := by
  cases s with
  | deferred v => rfl
  | touched w =>
      rw [outlineSlot_touched, outlineSlot_touched, outlineWorking_eq_map, outlineWorking_eq_map,
        Working.map_map]
      exact congrArg Slot.touched (Working.map_congr (ih w rfl))

theorem outline_idem (d : Draft) : d.outline.outline = d.outline := by
  induction d using Draft.induction with
  | step d ih =>
      refine outline_eq_iff.2 ⟨identity_outline d, isDeleted_outline d, ?_⟩
      rw [outline_eq, List.map_map]
      apply List.map_congr_left
      intro s hs
      apply outlineSlot_idem_of
      rintro w rfl
      exact ih w hs

theorem contentSlot_outlineSlot {s : Slot Snapshot Draft}
    (ih : ∀ w, s = .touched w → ∀ d ∈ w.drafts, d.outline.content = d.content) :
    contentSlot (outlineSlot s) = contentSlot s := by
  cases s with
  | deferred v => rfl
  | touched w =>
      rw [outlineSlot_touched, outlineWorking_eq_map]
      exact contentWorking_map (ih w rfl)

/-- The outline stands for what the draft stands for. -/
@[simp] theorem content_outline (d : Draft) : d.outline.content = d.content := by
  induction d using Draft.induction with
  | step d ih =>
      have hslots : d.outline.slots.map contentSlot = d.slots.map contentSlot := by
        rw [outline_eq, List.map_map]
        refine List.map_congr_left fun s hs => contentSlot_outlineSlot ?_
        rintro w rfl
        exact ih w hs
      have hidentity := identity_outline d
      simp only [identity, Identity.mk.injEq] at hidentity
      rw [content_eq, content_eq, isDeleted_outline, hslots, hidentity.1, hidentity.2]

theorem content_congr {d e : Draft} (h : d.outline = e.outline) : d.content = e.content := by
  rw [← content_outline d, h, content_outline]

/-- The view that hides what a draft was begun over and which change came last. -/
def outlined : Draft.View where
  draft := outline
  slot := outlineSlot
  identity_draft := identity_outline
  slots_draft d := by rw [outline_eq]
  slot_touched w := congrArg Slot.touched (outlineWorking_eq_map w)
  working_congr {s s'} h := by
    cases s with
    | deferred v =>
        cases s' with
        | deferred v' => rw [Slot.deferred.inj h]
        | touched w' => cases h
    | touched w =>
        cases s' with
        | deferred v' => cases h
        | touched w' =>
            have hworking := Slot.touched.inj h
            rwa [outlineWorking_eq_map, outlineWorking_eq_map] at hworking
  update_congr h hslots i := by
    have hidentity := (outline_eq_iff.1 h).1
    exact outline_eq_iff.2 ⟨hidentity, rfl, hslots⟩

end Draft

/-! ### Changes act on outlines -/

namespace Change

open Draft

/-- The outline decides what the change makes of a draft. -/
def ActsOnOutline (c : Change) : Prop :=
  ∀ d : Draft, (c.applyTo d.outline).outline = (c.applyTo d).outline

/-- No change can tell more of a draft than its outline. -/
theorem actsOnOutline (c : Change) : c.ActsOnOutline :=
  fun d => outlined.keeps c d.outline d (outline_idem d)

/-- Field by field, the outlines decide what a change makes of them. -/
theorem map_outlineSlot_applyFields_congr {ss ts : List (Slot Snapshot Draft)}
    (h : ss.map outlineSlot = ts.map outlineSlot) (ps : List (Option (Payload Change))) :
    (applyFields ps ss).map outlineSlot = (applyFields ps ts).map outlineSlot :=
  View.applyFields_congr (V := outlined) (fun _ _ c _ => outlined.keeps c) h

end Change

end VersionedRecords
