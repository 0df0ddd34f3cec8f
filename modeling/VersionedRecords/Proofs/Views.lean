import VersionedRecords.Proofs.Editing

/-!
Looking at drafts.

A view of drafts hides something about a draft, and the same about all drafts below.  If two drafts
look the same in a view, they look the same after any further change: no change can tell what is
hidden.  Touching everything is such a view: it hides what has been touched.
-/

namespace VersionedRecords

namespace Working

/-- The working copy with every draft directly below it replaced. -/
def map {δ ε : Type} (f : δ → ε) : Working δ → Working ε
  | .scalar v => .scalar v
  | .attached v => .attached v
  | .nested d => .nested (d.map f)
  | .keySet ms => .keySet ms
  | .valueMap es => .valueMap es
  | .modelMap es => .modelMap (es.map fun e => (e.1, f e.2))

theorem map_congr {δ ε : Type} {f g : δ → ε} {w : Working δ} (h : ∀ d ∈ w.drafts, f d = g d) :
    w.map f = w.map g := by
  cases w with
  | nested d => cases d <;> simp_all [map, drafts]
  | modelMap es =>
      refine congrArg modelMap (List.map_congr_left fun e he => ?_)
      rw [h e.2 (List.mem_map_of_mem he)]
  | _ => rfl

theorem map_map {δ ε ζ : Type} (f : δ → ε) (g : ε → ζ) (w : Working δ) :
    (w.map f).map g = w.map (g ∘ f) := by
  cases w <;> simp [map, Function.comp_def]

end Working

/-- A way of looking at drafts: what is seen of a draft and what is seen of a slot.  The conditions
are all that a change needs to be blind to what is hidden. -/
structure Draft.View where
  draft : Draft → Draft
  slot : Slot Snapshot Draft → Slot Snapshot Draft
  identity_draft (d : Draft) : (draft d).identity = d.identity
  slots_draft (d : Draft) : (draft d).slots = d.slots.map slot
  slot_touched (w : Working Draft) : slot (.touched w) = .touched (w.map draft)
  /-- What a slot looks like decides what its working copy looks like. -/
  working_congr {s s' : Slot Snapshot Draft} (h : slot s = slot s') :
    s.working.map draft = s'.working.map draft
  /-- Beside the slots, a draft looks the way it does for its frame and its last intent. -/
  update_congr {d d' : Draft} {ss ss' : List (Slot Snapshot Draft)} (h : draft d = draft d')
    (hslots : ss.map slot = ss'.map slot) (i : Option Intent) :
    draft { d with lastIntent := i, slots := ss } = draft { d' with lastIntent := i, slots := ss' }

namespace Draft.View

open Change

variable (V : Draft.View)

theorem identity_congr {d d' : Draft} (h : V.draft d = V.draft d') : d.identity = d'.identity := by
  rw [← V.identity_draft d, h, V.identity_draft]

theorem slots_congr {d d' : Draft} (h : V.draft d = V.draft d') :
    d.slots.map V.slot = d'.slots.map V.slot := by
  rw [← V.slots_draft d, h, V.slots_draft]

/-- Drafts that look the same still do after the change. -/
def Keeps (c : Change) : Prop :=
  ∀ d d' : Draft, V.draft d = V.draft d' → V.draft (c.applyTo d) = V.draft (c.applyTo d')

variable {V}

theorem applyRecord_congr {c : Change} (hc : V.Keeps c) {d d' : Option Draft}
    (h : d.map V.draft = d'.map V.draft) :
    V.draft (c.applyRecord d) = V.draft (c.applyRecord d') := by
  cases d with
  | none =>
      obtain rfl : d' = none := by simpa using h.symm
      rfl
  | some d =>
      cases d' with
      | none => simp at h
      | some d' =>
          have hd := Option.some.inj h
          rw [applyRecord, applyRecord, V.identity_congr hd]
          split
          · exact hc d d' hd
          · rfl

theorem applyEntries_congr {cs : List (RecordEntryChange Change)}
    (hcs : ∀ c ∈ cs, V.Keeps c.change) {es es' : Keyed Draft}
    (h : es.map (fun e => (e.1, V.draft e.2)) = es'.map fun e => (e.1, V.draft e.2)) :
    (applyEntries cs es).map (fun e => (e.1, V.draft e.2)) =
      (applyEntries cs es').map fun e => (e.1, V.draft e.2) := by
  rw [RecordEntryChange.applyEntries_eq_foldl, RecordEntryChange.applyEntries_eq_foldl]
  induction cs generalizing es es' with
  | nil => exact h
  | cons c cs ih =>
      rw [List.forall_mem_cons] at hcs
      refine ih hcs.2 ?_
      simp only [RecordEntryChange.applyTo]
      split
      · rw [Keyed.map_erase, Keyed.map_erase, h]
      · have hfound : (Keyed.find? c.key es).map V.draft = (Keyed.find? c.key es').map V.draft := by
          rw [← Keyed.find?_map, ← Keyed.find?_map, h]
        rw [Keyed.map_insert, Keyed.map_insert, h, applyRecord_congr hcs.1 hfound]

theorem applyPayload_congr {p : Payload Change} (hp : ∀ c ∈ p.changes, V.Keeps c)
    {w w' : Working Draft} (h : w.map V.draft = w'.map V.draft) :
    (applyPayload p w).map V.draft = (applyPayload p w').map V.draft := by
  cases p with
  | nested c =>
      cases w with
      | nested d =>
          cases w' <;> simp only [Working.map, Working.nested.injEq, reduceCtorEq] at h
          rw [applyPayload_nested, applyPayload_nested, Working.map, Working.map, Option.map_some,
            Option.map_some, applyRecord_congr (hp c (by simp [Payload.changes])) h]
      | _ => cases w' <;> simp_all [Working.map, applyPayload]
  | modelMap cs =>
      cases w with
      | modelMap es =>
          cases w' <;> simp only [Working.map, Working.modelMap.injEq, reduceCtorEq] at h
          rw [applyPayload, applyPayload, Working.map, Working.map,
            applyEntries_congr (fun c hc => hp c.change (List.mem_map_of_mem hc)) h]
      | _ => cases w' <;> simp_all [Working.map, applyPayload]
  | _ => cases w <;> cases w' <;> simp_all [Working.map, applyPayload]

theorem applyFields_congr {ps : List (Option (Payload Change))}
    (hps : ∀ p, some p ∈ ps → ∀ c ∈ p.changes, V.Keeps c) {ss ss' : List (Slot Snapshot Draft)}
    (h : ss.map V.slot = ss'.map V.slot) :
    (applyFields ps ss).map V.slot = (applyFields ps ss').map V.slot := by
  induction ps generalizing ss ss' with
  | nil => simpa [applyFields] using h
  | cons p ps ih =>
      cases ss with
      | nil =>
          obtain rfl : ss' = [] := by simpa using h.symm
          rfl
      | cons s ss =>
          cases ss' with
          | nil => simp at h
          | cons s' ss' =>
              rw [List.map_cons, List.map_cons, List.cons.injEq] at h
              have hrest := ih (fun q hq => hps q (List.mem_cons_of_mem _ hq)) h.2
              cases p with
              | none => simp [applyFields, h.1, hrest]
              | some p =>
                  have hworking := applyPayload_congr (hps p (by simp)) (V.working_congr h.1)
                  simp [applyFields, V.slot_touched, hworking, hrest]

/-- The step that adds a change to those that cannot tell what is hidden. -/
theorem keeps_of_changes {c : Change}
    (hc : ∀ p, some p ∈ c.fields → ∀ c ∈ p.changes, V.Keeps c) : V.Keeps c := by
  intro d d' h
  rw [applyTo_eq, applyTo_eq]
  split
  · have hlayout : d.layout = d'.layout := congrArg Identity.layout (V.identity_congr h)
    exact V.update_congr h (congrArg (fun l => (zeroSlots l).map V.slot) hlayout) _
  · exact V.update_congr h (applyFields_congr hc (V.slots_congr h)) _

/-- No change can tell what is hidden. -/
theorem keeps (V : Draft.View) (c : Change) : V.Keeps c := by
  induction c using Change.induction with
  | step c ih => exact keeps_of_changes ih

end Draft.View

/-! ### Touching everything -/

namespace Draft

theorem materialiseWorking_eq_map (w : Working Draft) :
    materialiseWorking w = w.map materialise := by
  cases w with
  | nested d => cases d <;> simp [materialiseWorking, Working.map]
  | modelMap es => rw [materialiseWorking, materialiseEntries_eq_map, Working.map]
  | _ => simp [materialiseWorking, Working.map]

theorem materialise_edit (s : Snapshot) : s.edit.materialise = s.editThroughout := by
  rw [materialise_eq, Snapshot.editThroughout_eq]
  simp [Snapshot.edit, Slot.materialise]

theorem openValue_eq_map (v : Value Snapshot) : openValue v = v.materialise.map materialise := by
  cases v with
  | nested s => cases s <;> simp [openValue, Value.materialise, Working.map, materialise_edit]
  | modelMap o es =>
      simp [openValue, openEntries_eq_map, Value.materialise, Working.map, materialise_edit]
  | _ => simp [openValue, Value.materialise, Working.map]

/-- Touching a slot and everything below is touching it and then everything in its working copy. -/
theorem materialise_slot (s : Slot Snapshot Draft) :
    s.materialise = .touched (s.working.map materialise) := by
  cases s with
  | deferred v => exact congrArg Slot.touched (openValue_eq_map v)
  | touched w => exact congrArg Slot.touched (materialiseWorking_eq_map w)

theorem materialise_eq_iff {d d' : Draft} :
    d.materialise = d'.materialise ↔ d.identity = d'.identity ∧ d.reference = d'.reference ∧
      d.lastIntent = d'.lastIntent ∧
        d.slots.map Slot.materialise = d'.slots.map Slot.materialise := by
  rw [materialise_eq, materialise_eq]
  simp [identity, and_assoc]

/-- The view that hides what has been touched. -/
def opened : Draft.View where
  draft := materialise
  slot := Slot.materialise
  identity_draft d := by
    rw [materialise_eq]
    rfl
  slots_draft d := by rw [materialise_eq]
  slot_touched w := materialise_slot (.touched w)
  working_congr h := by
    rw [materialise_slot, materialise_slot] at h
    exact Slot.touched.inj h
  update_congr h hslots i := by
    obtain ⟨hidentity, hreference, -, -⟩ := materialise_eq_iff.1 h
    exact materialise_eq_iff.2 ⟨hidentity, hreference, rfl, hslots⟩

/-- Everything can be touched only once. -/
theorem materialise_materialise (d : Draft) : d.materialise.materialise = d.materialise := by
  induction d using Draft.induction_working with
  | step d ih =>
      have hslots : (d.slots.map Slot.materialise).map Slot.materialise =
          d.slots.map Slot.materialise := by
        rw [List.map_map]
        apply List.map_congr_left
        intro s hs
        rw [Function.comp_apply, materialise_slot, materialise_slot, Slot.working, Working.map_map]
        exact congrArg Slot.touched (Working.map_congr (ih s hs))
      apply materialise_eq_iff.2
      rw [materialise_eq]
      exact ⟨rfl, rfl, rfl, hslots⟩

theorem contentWorking_map {f : Draft → Draft} {w : Working Draft}
    (h : ∀ d ∈ w.drafts, (f d).content = d.content) :
    contentWorking (w.map f) = contentWorking w := by
  cases w with
  | nested d =>
      rw [Working.map, contentWorking_nested, contentWorking_nested]
      cases d with
      | none => rfl
      | some d => exact congrArg Value.nested (h d (by simp [Working.drafts]))
  | modelMap es =>
      rw [Working.map, contentWorking, contentWorking, contentEntries_eq_filterMap,
        contentEntries_eq_filterMap, List.filterMap_map]
      refine congrArg (Value.modelMap .zero) (List.filterMap_congr fun e he => ?_)
      rw [Function.comp_apply, entryContent?, entryContent?, h e.2 (List.mem_map_of_mem he)]
  | _ => rfl

/-- What a draft stands for does not depend on what has been touched. -/
theorem content_materialise (d : Draft) : d.materialise.content = d.content := by
  induction d using Draft.induction_working with
  | step d ih =>
      have hslots : (d.slots.map Slot.materialise).map contentSlot = d.slots.map contentSlot := by
        rw [List.map_map]
        apply List.map_congr_left
        intro s hs
        rw [Function.comp_apply, materialise_slot, contentSlot, contentSlot_eq,
          contentWorking_map (ih s hs)]
      rw [materialise_eq, content_eq, content_eq, hslots]
      rfl

end Draft

end VersionedRecords
