import VersionedRecords.Orders.Edit
import VersionedRecords.Orders.Total
import VersionedRecords.Proofs.Orders.Books

/-!
What setting the quantity of a line and removing a line do and tell.

Both act on the drafts of the lines, and both answer by whether there is a draft under the key of
the line.  The order that is built has the line only if that draft is not deleted.  What the two do
is right in every case, since nothing that is done to a deleted draft shows.  What they tell is
right unless a deleted draft lies under the key.
-/

namespace VersionedRecords

namespace Keyed

variable {α : Type} {k : Key} {f : α → Option α} {m : Keyed α}

/-- The map with what is under a key changed, or taken out. -/
def alter (k : Key) (f : α → Option α) (m : Keyed α) : Keyed α :=
  match find? k m with
  | none => m
  | some v => (f v).elim (erase k m) fun w => insert k w m

theorem alter_eq_self (h : find? k m = none) : alter k f m = m := by
  rw [alter, h]

theorem find?_alter (hm : Ascending m) (j : Key) :
    find? j (alter k f m) = if k = j then (find? k m).bind f else find? j m := by
  rw [alter]
  cases hfind : find? k m with
  | none =>
      by_cases hk : k = j
      · simp [← hk, hfind]
      · simp [hk]
  | some v =>
      cases hf : f v with
      | none => simp [hf, find?_erase hm]
      | some w => simp [hf, find?_insert]

theorem ascending_alter (hm : Ascending m) : Ascending (alter k f m) := by
  rw [alter]
  cases find? k m with
  | none => exact hm
  | some v =>
      cases hf : f v with
      | none => simpa [hf] using ascending_erase hm k
      | some w => simpa [hf] using ascending_insert hm k w

end Keyed

namespace Snapshot

variable {s : Snapshot} {name : String} {v : Value Snapshot} {i : Nat}

/-- The record with another value in a field. -/
def put (s : Snapshot) (name : String) (v : Value Snapshot) : Snapshot :=
  (s.layout.indexOf? name).elim s fun i => { s with fields := s.fields.set i v }

theorem field?_put (hindex : s.layout.indexOf? name = some i) (hi : i < s.fields.length) :
    (s.put name v).field? name = some v := by
  rw [put, hindex, Option.elim_some, field?, hindex]
  exact List.getElem?_set_self hi

theorem field?_bare (s : Snapshot) (name : String) :
    s.bare.field? name = (s.field? name).map bareValue := by
  rw [field?, field?, layout_bare, fields_bare]
  cases s.layout.indexOf? name with
  | none => rfl
  | some i => exact List.getElem?_map

end Snapshot

namespace Draft

variable {d : Draft} {name : String} {i : Nat} {s : Slot Snapshot Draft}

theorem run_field (hindex : d.layout.indexOf? name = some i) (hslot : d.slots[i]? = some s)
    (e : FieldEdit) : (Edit.field name e).run d =
      ({ d with slots := d.slots.set i (.touched (e.run s.working).1) }, (e.run s.working).2) := by
  rw [Edit.run, hindex]
  simp only [hslot]

/-- Editing a field changes the content in that field. -/
theorem content_run_field (hindex : d.layout.indexOf? name = some i) (hslot : d.slots[i]? = some s)
    (e : FieldEdit) : ((Edit.field name e).run d).1.content =
      d.content.map fun c => c.put name (contentWorking (e.run s.working).1) := by
  have hsame : ∀ slots, isDeleted { d with slots := slots } = d.isDeleted := fun _ => rfl
  rw [run_field hindex hslot, content_eq, content_eq, hsame]
  split
  · rfl
  · simp [Snapshot.put, hindex, contentSlot]

end Draft

namespace Orders

open Draft

/-- The drafts of the lines of an order. -/
def openLines (d : Draft) : Keyed Draft :=
  match (d.layout.indexOf? "lines").bind fun i => d.slots[i]? with
  | some s =>
    match s.working with
    | .modelMap es => es
    | _ => []
  | none => []

/-- The draft under the key of a line is deleted. -/
def Buried (d : Draft) (k : Key) : Prop :=
  ∃ e, Keyed.find? k (openLines d) = some e ∧ e.isDeleted = true

/-- A line with another quantity. -/
def withQuantity (quantity : Nat) (line : Snapshot) : Snapshot :=
  line.put "quantity" (.scalar (.key (.int quantity)))

/-- An order with one of its lines changed, or taken out. -/
def changeLine (k : Key) (f : Snapshot → Option Snapshot) (o : Snapshot) : Snapshot :=
  o.put "lines" (.modelMap .zero (Keyed.alter k f (linesOf o)))

/-- What is told of an edit of a line is what the orders show that are built before and after it. -/
structure Truthful (told : Bool) (k : Key) (f : Snapshot → Option Snapshot)
    (before after : Snapshot) : Prop where
  told_iff : told = true ↔ Keyed.has k (linesOf before) = true
  changed : told = true → after.bare = changeLine k f before.bare
  unchanged : told = false → after.bare = before.bare

/-- An edit of one line of an order: it changes that line in the order that is built, and tells
whether there is a draft under the key of the line. -/
structure EditsLine (d : Draft) (k : Key) (f : Snapshot → Option Snapshot) (edited : Draft × Bool) :
    Prop where
  told : edited.2 = Keyed.has k (openLines d)
  coherent : edited.1.Coherent models
  content : edited.1.content = d.content.map (changeLine k f)

section Lines

variable {d : Draft}

/-- Where the drafts of the lines are, and what they are like. -/
theorem lines_of_coherent (hd : d.Coherent models) (hlayout : d.layout = order) :
    ∃ s, d.layout.indexOf? "lines" = some 5 ∧ d.slots[5]? = some s ∧
      s.working = .modelMap (openLines d) ∧ Keyed.Ascending (openLines d) ∧
      ∀ e ∈ openLines d, e.2.layout = lineItem ∧ e.2.Coherent models := by
  have hindex : d.layout.indexOf? "lines" = some 5 := by
    rw [hlayout]
    decide
  have hkind : d.layout.kinds[5]? = some (.modelMap .line "LineItem") := by
    rw [hlayout]
    rfl
  obtain ⟨s, hslot, hs⟩ := hd.exists_slot hkind
  have hworking : WorkingCoheres models (.modelMap .line "LineItem") s.working :=
    workingCoheres_working hs
  obtain ⟨es, hes, hascending, hentries⟩ := workingCoheres_modelMap.1 hworking
  have hopen : openLines d = es := by
    rw [openLines, hindex, Option.bind_some, hslot]
    simp only [hes]
  rw [hopen]
  exact ⟨s, hindex, hslot, hes, hascending, hentries⟩

/-- The lines of the content are those whose drafts are not deleted. -/
theorem lines_of_content (hd : d.Coherent models) (hlayout : d.layout = order) {c : Snapshot}
    (hc : d.content = some c) : c.layout.indexOf? "lines" = some 5 ∧
      c.fields[5]? = some (.modelMap .zero (contentEntries (openLines d))) ∧
      linesOf c = contentEntries (openLines d) := by
  obtain ⟨s, hindex, hslot, hs, -⟩ := lines_of_coherent hd hlayout
  have hclayout : c.layout = d.layout := congrArg Identity.layout (identity_of_content hc)
  have hfield : c.fields[5]? = some (.modelMap .zero (contentEntries (openLines d))) := by
    rw [content_eq] at hc
    split at hc
    · cases hc
    · cases hc
      simp [hslot, contentSlot_eq, hs, contentWorking]
  refine ⟨hclayout ▸ hindex, hfield, ?_⟩
  have hlines : c.field? "lines" = some (.modelMap .zero (contentEntries (openLines d))) := by
    rw [Snapshot.field?, hclayout, hindex]
    exact hfield
  rw [linesOf, hlines]

theorem conforms_line (hd : d.Coherent models) (hlayout : d.layout = order) {c l : Snapshot}
    (hc : d.content = some c) {k : Key} (hl : Keyed.find? k (linesOf c) = some l) :
    l.layout = lineItem ∧ l.Conforms models := by
  obtain ⟨-, -, -, -, hascending, hentries⟩ := lines_of_coherent hd hlayout
  obtain ⟨-, -, hlines⟩ := lines_of_content hd hlayout hc
  rw [hlines, find?_contentEntries hascending] at hl
  obtain ⟨e, hfind, he⟩ := Option.bind_eq_some_iff.1 hl
  obtain ⟨helayout, hecoherent⟩ : e.layout = lineItem ∧ e.Coherent models :=
    hentries (k, e) (Keyed.mem_of_find? hfind)
  exact ⟨(congrArg Identity.layout (identity_of_content he)).trans helayout,
    conforms_content hecoherent he⟩

/-- Drafts of lines that are those from before but for one key. -/
theorem contentEntries_eq_alter {es es' : Keyed Draft} (hes : Keyed.Ascending es)
    (hes' : Keyed.Ascending es') {k : Key} {f : Snapshot → Option Snapshot}
    (hk : (Keyed.find? k es').bind content = ((Keyed.find? k es).bind content).bind f)
    (hother : ∀ j, k ≠ j → Keyed.find? j es' = Keyed.find? j es) :
    contentEntries es' = Keyed.alter k f (contentEntries es) := by
  have hcontent := ascending_contentEntries hes
  refine Keyed.ext_find? (ascending_contentEntries hes') (Keyed.ascending_alter hcontent)
    fun j => ?_
  rw [find?_contentEntries hes', Keyed.find?_alter hcontent, find?_contentEntries hes,
    find?_contentEntries hes]
  split
  · next h => rw [← h, hk]
  · next h => rw [hother j h]

/-- Editing the drafts of the lines under one key changes that line of the order. -/
theorem run_lines (hd : d.Coherent models) (hlayout : d.layout = order) {e : FieldEdit}
    (hkeeps : e.Keeps models (.modelMap .line "LineItem")) {es : Keyed Draft} {r : EditResult}
    (hrun : e.run (.modelMap (openLines d)) = (.modelMap es, r)) {k : Key}
    {f : Snapshot → Option Snapshot}
    (hk : (Keyed.find? k es).bind content =
      ((Keyed.find? k (openLines d)).bind content).bind f)
    (hother : ∀ j, k ≠ j → Keyed.find? j es = Keyed.find? j (openLines d)) :
    ∃ d', (Edit.field "lines" e).run d = (d', r) ∧ d'.Coherent models ∧
      d'.content = d.content.map (changeLine k f) := by
  obtain ⟨s, hindex, hslot, hs, hascending, hentries⟩ := lines_of_coherent hd hlayout
  have hcoheres := hkeeps (.modelMap (openLines d))
    (workingCoheres_modelMap.2 ⟨_, rfl, hascending, hentries⟩)
  have hedited := run_field hindex hslot e
  have hcontent := content_run_field hindex hslot e
  rw [hrun] at hcoheres
  rw [hs, hrun] at hedited hcontent
  rw [hedited] at hcontent
  obtain ⟨_, ⟨⟩, hes, -⟩ := workingCoheres_modelMap.1 hcoheres
  refine ⟨_, hedited, hd.set (hlayout ▸ rfl) hcoheres, ?_⟩
  rw [hcontent, contentWorking, contentEntries_eq_alter hascending hes hk hother]
  cases hc : d.content with
  | none => rfl
  | some c =>
      obtain ⟨-, -, hlines⟩ := lines_of_content hd hlayout hc
      rw [Option.map_some, Option.map_some, changeLine, hlines]

/-- The order has a line if there is a draft under its key that is not deleted. -/
theorem has_contentEntries_iff (hd : d.Coherent models) (hlayout : d.layout = order) (k : Key) :
    Keyed.has k (contentEntries (openLines d)) = true ↔
      Keyed.has k (openLines d) = true ∧ ¬ Buried d k := by
  obtain ⟨-, -, -, -, hascending, -⟩ := lines_of_coherent hd hlayout
  rw [Keyed.has, Keyed.has, find?_contentEntries hascending, Buried]
  cases Keyed.find? k (openLines d) with
  | none => simp
  | some e =>
      cases he : e.content with
      | none => simp [he, content_eq_none_iff.1 he]
      | some s => simp [he, isDeleted_of_content he]

/-- The lines of an order with one of them changed. -/
theorem find?_changeLine {c : Snapshot} (hindex : c.layout.indexOf? "lines" = some 5)
    (hfield : c.fields[5]? = some (.modelMap .zero (linesOf c)))
    (hascending : Keyed.Ascending (linesOf c)) (k : Key) (f : Snapshot → Option Snapshot)
    (j : Key) :
    Keyed.find? j (linesOf (changeLine k f c)) =
      if k = j then (Keyed.find? k (linesOf c)).bind f else Keyed.find? j (linesOf c) := by
  obtain ⟨hlt, -⟩ := List.getElem?_eq_some_iff.1 hfield
  have hlines : linesOf (changeLine k f c) = Keyed.alter k f (linesOf c) := by
    rw [linesOf, changeLine, Snapshot.field?_put hindex hlt]
  rw [hlines, Keyed.find?_alter hascending]

/-- Changing a line that an order does not have changes nothing. -/
theorem changeLine_eq_self {c : Snapshot} (hindex : c.layout.indexOf? "lines" = some 5)
    (hfield : c.fields[5]? = some (.modelMap .zero (linesOf c))) {k : Key}
    (hnone : Keyed.has k (linesOf c) = false) (f : Snapshot → Option Snapshot) :
    changeLine k f c = c := by
  have hfind : Keyed.find? k (linesOf c) = none := by simpa [Keyed.has] using hnone
  obtain ⟨hlt, hget⟩ := List.getElem?_eq_some_iff.1 hfield
  rw [changeLine, Snapshot.put, hindex, Option.elim_some, Keyed.alter_eq_self hfind, ← hget,
    List.set_getElem_self]
  cases c
  rfl

/-! ### The two edits -/

/-- Setting the quantity of a draft of a line. -/
theorem run_setQuantity {e : Draft} (he : e.Coherent models) (hlayout : e.layout = lineItem)
    (quantity : Nat) :
    ((setScalar "quantity" (.key (.int quantity))).run e).2 = .done ∧
      ((setScalar "quantity" (.key (.int quantity))).run e).1.content =
        e.content.map (withQuantity quantity) := by
  have hindex : e.layout.indexOf? "quantity" = some 1 := by
    rw [hlayout]
    decide
  have hkind : e.layout.kinds[1]? = some (.scalar (.key (.integer .u32))) := by
    rw [hlayout]
    rfl
  obtain ⟨s, hslot, -⟩ := he.exists_slot hkind
  rw [setScalar, content_run_field hindex hslot, run_field hindex hslot, FieldEdit.run,
    contentWorking]
  exact ⟨rfl, rfl⟩

theorem fits_setQuantity (quantity : Nat) :
    (setScalar "quantity" (.key (.int quantity))).Fits models lineItem :=
  fits_setScalar (i := 1) (by decide) rfl trivial

theorem editsLine_setLineQuantity (hd : d.Coherent models) (hlayout : d.layout = order)
    (line quantity : Nat) :
    EditsLine d (lineKey d line) (some ∘ withQuantity quantity)
      (setLineQuantity d line quantity) := by
  obtain ⟨-, -, -, -, hascending, hentries⟩ := lines_of_coherent hd hlayout
  rw [setLineQuantity]
  generalize lineKey d line = k
  have hkeeps := FieldEdit.keeps_entry (k := .line) k (m := "LineItem")
    (fits_setQuantity quantity).keeps
  cases hfind : Keyed.find? k (openLines d) with
  | none =>
      have hrun : (FieldEdit.entry k (setScalar "quantity" (.key (.int quantity)))).run
          (.modelMap (openLines d)) = (.modelMap (openLines d), .absent) := by
        rw [FieldEdit.run, hfind]
      obtain ⟨d', hedited, hcoherent, hcontent⟩ := run_lines hd hlayout hkeeps hrun (k := k)
        (f := some ∘ withQuantity quantity) (by rw [hfind]; rfl) fun _ _ => rfl
      simp only [hedited]
      exact ⟨by rw [Keyed.has, hfind]; rfl, hcoherent, hcontent⟩
  | some e =>
      obtain ⟨helayout, hecoherent⟩ : e.layout = lineItem ∧ e.Coherent models :=
        hentries (k, e) (Keyed.mem_of_find? hfind)
      obtain ⟨hdone, hset⟩ := run_setQuantity hecoherent helayout quantity
      have hrun : (FieldEdit.entry k (setScalar "quantity" (.key (.int quantity)))).run
          (.modelMap (openLines d)) = (.modelMap (Keyed.insert k
            ((setScalar "quantity" (.key (.int quantity))).run e).1 (openLines d)), .done) := by
        rw [FieldEdit.run, hfind]
        simp only [hdone]
      obtain ⟨d', hedited, hcoherent, hcontent⟩ := run_lines hd hlayout hkeeps hrun (k := k)
        (f := some ∘ withQuantity quantity)
        (by rw [Keyed.find?_insert, if_pos rfl, hfind, Option.bind_some, Option.bind_some, hset,
          Option.map_eq_bind])
        fun j hj => by rw [Keyed.find?_insert, if_neg hj]
      simp only [hedited]
      exact ⟨by rw [Keyed.has, hfind]; rfl, hcoherent, hcontent⟩

theorem editsLine_removeLine (hd : d.Coherent models) (hlayout : d.layout = order) (line : Nat) :
    EditsLine d (lineKey d line) (fun _ => none) (removeLine d line) := by
  obtain ⟨-, -, -, -, hascending, -⟩ := lines_of_coherent hd hlayout
  rw [removeLine]
  generalize lineKey d line = k
  have hrun : (FieldEdit.remove k).run (.modelMap (openLines d)) =
      (.modelMap (Keyed.erase k (openLines d)), .replaced (Keyed.has k (openLines d))) := by
    rw [FieldEdit.run]
  obtain ⟨d', hedited, hcoherent, hcontent⟩ := run_lines hd hlayout
    (FieldEdit.keeps_remove _ k) hrun (k := k) (f := fun _ => none)
    (by simp [Keyed.find?_erase hascending])
    fun j hj => by rw [Keyed.find?_erase hascending, if_neg hj]
  simp only [hedited]
  exact ⟨rfl, hcoherent, hcontent⟩

/-! ### What is told -/

theorem linesOf_bare (o : Snapshot) : linesOf o.bare = Snapshot.bareEntries (linesOf o) := by
  rw [linesOf, linesOf, Snapshot.field?_bare]
  cases o.field? "lines" with
  | none => rw [Option.map_none, Snapshot.bareEntries]
  | some v =>
      cases v with
      | nested s => cases s <;> simp [Snapshot.bareValue, Snapshot.bareEntries]
      | _ => simp [Snapshot.bareValue, Snapshot.bareEntries]

theorem numberIn_bare (s : Snapshot) (field : String) :
    numberIn s.bare field = numberIn s field := by
  rw [numberIn, numberIn, Snapshot.field?_bare]
  cases s.field? field with
  | none => rfl
  | some v =>
      cases v with
      | nested s => cases s <;> simp [Snapshot.bareValue]
      | _ => simp [Snapshot.bareValue]

theorem numberIn_withQuantity {l : Snapshot} (hlayout : l.layout = lineItem)
    (hl : l.Conforms models) (quantity : Nat) :
    numberIn (withQuantity quantity l) "quantity" = quantity := by
  have hindex : l.layout.indexOf? "quantity" = some 1 := by
    rw [hlayout]
    decide
  have hlt : 1 < l.fields.length := by
    rw [← (Snapshot.conforms_iff.1 hl).length_eq, hlayout]
    decide
  rw [numberIn, withQuantity, Snapshot.field?_put hindex hlt]
  rfl

/-- What is told of an edit of a line is right exactly if no deleted draft lies under its key. -/
theorem EditsLine.truthful_iff (hd : d.Coherent models) (hlayout : d.layout = order) {k : Key}
    {f : Snapshot → Option Snapshot} {edited : Draft × Bool} (h : EditsLine d k f edited)
    {stamp : Nat} {before : Snapshot} (hbefore : d.build stamp = some before) (stamp' : Nat) :
    ∃ after, edited.1.build stamp' = some after ∧ after.bare = changeLine k f before.bare ∧
      Keyed.find? k (linesOf after.bare) = (Keyed.find? k (linesOf before.bare)).bind f ∧
      (Truthful edited.2 k f before after ↔ ¬ Buried d k) := by
  have hcontent : d.content = some before.bare := by
    rw [← buildsContent_of_coherent hd stamp [], ← build, hbefore, Option.map_some]
  obtain ⟨-, -, -, -, hascending, -⟩ := lines_of_coherent hd hlayout
  obtain ⟨hindex, hfield, hlines⟩ := lines_of_content hd hlayout hcontent
  rw [← hlines] at hfield
  have hhas : Keyed.has k (linesOf before) = Keyed.has k (linesOf before.bare) := by
    rw [linesOf_bare, Snapshot.has_bareEntries]
  have hthere : Keyed.has k (linesOf before) = true ↔ edited.2 = true ∧ ¬ Buried d k := by
    rw [hhas, hlines, h.told]
    exact has_contentEntries_iff hd hlayout k
  have hedited := h.content
  rw [hcontent, Option.map_some] at hedited
  obtain ⟨after, hafter, hbare⟩ :=
    Draft.exists_build h.coherent (isDeleted_of_content hedited) stamp'
  have hchanged : after.bare = changeLine k f before.bare :=
    Option.some.inj (hbare.symm.trans hedited)
  refine ⟨after, hafter, hchanged, ?_, fun htruthful hburied => ?_, fun hburied => ?_⟩
  · have hasc : Keyed.Ascending (linesOf before.bare) :=
      hlines ▸ ascending_contentEntries hascending
    rw [hchanged, find?_changeLine hindex hfield hasc, if_pos rfl]
  · have htold : edited.2 = true := by
      obtain ⟨e, hfind, -⟩ := hburied
      rw [h.told, Keyed.has, hfind, Option.isSome_some]
    exact (hthere.1 (htruthful.told_iff.1 htold)).2 hburied
  · have htold : edited.2 = true ↔ Keyed.has k (linesOf before) = true := by
      rw [hthere, and_iff_left hburied]
    refine ⟨htold, fun _ => hchanged, fun hnot => ?_⟩
    rw [hchanged]
    refine changeLine_eq_self hindex hfield ?_ f
    rw [← hhas, ← Bool.not_eq_true, ← htold, hnot]
    decide

/-- The two edits of a line do to the order what they should.  What they tell is what the orders
show exactly if no deleted draft lies under the key of the line. -/
theorem line_edits_truthful_iff (hd : d.Reachable models) (hlayout : d.layout = order)
    (hdeleted : d.isDeleted = false) (line quantity stamp stamp' : Nat) :
    ∃ before edited removed, d.build stamp = some before ∧
      (setLineQuantity d line quantity).1.build stamp' = some edited ∧
      (removeLine d line).1.build stamp' = some removed ∧
      edited.bare = changeLine (lineKey d line) (some ∘ withQuantity quantity) before.bare ∧
      removed.bare = changeLine (lineKey d line) (fun _ => none) before.bare ∧
      (∀ l, Keyed.find? (lineKey d line) (linesOf edited) = some l →
        numberIn l "quantity" = quantity) ∧
      Keyed.find? (lineKey d line) (linesOf removed) = none ∧
      (Truthful (setLineQuantity d line quantity).2 (lineKey d line)
        (some ∘ withQuantity quantity) before edited ↔ ¬ Buried d (lineKey d line)) ∧
      (Truthful (removeLine d line).2 (lineKey d line) (fun _ => none) before removed ↔
        ¬ Buried d (lineKey d line)) := by
  have hcoherent := hd.coherent
  obtain ⟨before, hbefore, hcontent⟩ := exists_build hcoherent hdeleted stamp
  obtain ⟨edited, hedited, hset, hline, htold⟩ :=
    (editsLine_setLineQuantity hcoherent hlayout line quantity).truthful_iff hcoherent hlayout
      hbefore stamp'
  obtain ⟨removed, hremoved, hgone, hline', htold'⟩ :=
    (editsLine_removeLine hcoherent hlayout line).truthful_iff hcoherent hlayout hbefore stamp'
  refine ⟨before, edited, removed, hbefore, hedited, hremoved, hset, hgone, fun l hl => ?_, ?_,
    htold, htold'⟩
  · rw [linesOf_bare edited, Snapshot.find?_bareEntries, hl, Option.map_some] at hline
    obtain ⟨l', hl', hquantity⟩ := Option.bind_eq_some_iff.1 hline.symm
    obtain ⟨hllayout, hlconforms⟩ := conforms_line hcoherent hlayout hcontent hl'
    rw [← numberIn_bare, ← Option.some.inj hquantity]
    exact numberIn_withQuantity hllayout hlconforms quantity
  · rw [linesOf_bare removed, Snapshot.find?_bareEntries] at hline'
    exact Option.map_eq_none_iff.1 (hline'.trans (Option.bind_fun_none _))

/-! ### A line put and deleted -/

theorem layout_newLine (key : Key) (sku : String) (quantity unitPriceCents : Nat) :
    (newLine key sku quantity unitPriceCents).layout = lineItem :=
  layout_edited _ (.new lineItem key)

theorem reachable_newLine (key : Key) (sku : String) (quantity unitPriceCents : Nat) :
    (newLine key sku quantity unitPriceCents).Reachable models := by
  have hsku : (setScalar "sku" (.key (.text sku))).Fits models lineItem :=
    fits_setScalar (i := 0) (by decide) rfl trivial
  have hprice : (setScalar "unit_price_cents" (.key (.int unitPriceCents))).Fits models lineItem :=
    fits_setScalar (i := 2) (by decide) rfl trivial
  refine reachable_edited (.new lineItem key) ?_
  simp only [List.forall_mem_cons]
  exact ⟨hsku, fits_setQuantity quantity, hprice, by simp⟩

theorem reachable_putLine (hd : d.Reachable models) (hlayout : d.layout = order) (line : Nat)
    (sku : String) (quantity unitPriceCents : Nat) :
    (putLine d line sku quantity unitPriceCents).Reachable models := by
  refine hd.run (hlayout ▸ Edit.fits_field (i := 5) (by decide) rfl ?_)
  exact .putRecord _ (layout_newLine _ sku quantity unitPriceCents)
    (reachable_newLine _ sku quantity unitPriceCents)

/-- The draft of a new order in which a line is put. -/
def listed : Draft := putLine (.new order (.int 1)) 1 "KB-01" 2 4500

/-- The change that deletes the line. -/
def striking : Change := ⟨lineItem, .delete, .line 1 1, [none, none, none]⟩

/-- The draft in which that line is then deleted, but not taken out. -/
def struck : Draft :=
  ((Edit.field "lines" (.entry (.line 1 1) (.apply striking))).run listed).1

theorem reachable_listed : listed.Reachable models :=
  reachable_putLine (.new order (.int 1)) rfl 1 "KB-01" 2 4500

theorem reachable_struck : struck.Reachable models := by
  have hstriking : striking.Conforms models :=
    Change.conforms_iff.2 (.cons (by simp) (.cons (by simp) (.cons (by simp) .nil)))
  refine reachable_listed.run (Edit.fits_field (i := 5) (by decide) rfl ?_)
  exact .entry _ (.apply hstriking)

theorem buried_struck : Buried struck (.line 1 1) := by
  have hdeleted : ((Keyed.find? (.line 1 1) (openLines struck)).any Draft.isDeleted) = true := by
    decide +kernel
  simpa [Buried, Option.any_eq_true] using hdeleted

theorem not_buried_listed : ¬ Buried listed (.line 1 1) := by
  have hlive : ((Keyed.find? (.line 1 1) (openLines listed)).any Draft.isDeleted) = false := by
    decide +kernel
  simpa [Buried, Option.any_eq_false] using hlive

/-- What is told of the line while it is there is right, and once it is deleted it is not. -/
theorem line_edits_truthful_iff_of_struck :
    (∃ before edited removed, listed.build 0 = some before ∧
      (setLineQuantity listed 1 5).1.build 1 = some edited ∧
      (removeLine listed 1).1.build 1 = some removed ∧
      Truthful (setLineQuantity listed 1 5).2 (.line 1 1) (some ∘ withQuantity 5) before edited ∧
      Truthful (removeLine listed 1).2 (.line 1 1) (fun _ => none) before removed) ∧
    ∃ before edited removed, struck.build 0 = some before ∧
      (setLineQuantity struck 1 5).1.build 1 = some edited ∧
      (removeLine struck 1).1.build 1 = some removed ∧
      ¬ Truthful (setLineQuantity struck 1 5).2 (.line 1 1) (some ∘ withQuantity 5) before edited ∧
      ¬ Truthful (removeLine struck 1).2 (.line 1 1) (fun _ => none) before removed := by
  constructor
  · obtain ⟨before, edited, removed, hbefore, hedited, hremoved, -, -, -, -, hset, hremove⟩ :=
      line_edits_truthful_iff reachable_listed rfl rfl 1 5 0 1
    exact ⟨before, edited, removed, hbefore, hedited, hremoved, hset.2 not_buried_listed,
      hremove.2 not_buried_listed⟩
  · obtain ⟨before, edited, removed, hbefore, hedited, hremoved, -, -, -, -, hset, hremove⟩ :=
      line_edits_truthful_iff reachable_struck rfl rfl 1 5 0 1
    exact ⟨before, edited, removed, hbefore, hedited, hremoved,
      fun h => hset.1 h buried_struck, fun h => hremove.1 h buried_struck⟩

/-- Not every line edit of an order tells what the orders show. -/
theorem buried_line_not_truthful :
    ¬ ∀ d : Draft, d.Reachable models → d.layout = order → d.isDeleted = false →
      ∀ line quantity stamp stamp', ∃ before edited removed, d.build stamp = some before ∧
        (setLineQuantity d line quantity).1.build stamp' = some edited ∧
        (removeLine d line).1.build stamp' = some removed ∧
        Truthful (setLineQuantity d line quantity).2 (lineKey d line)
          (some ∘ withQuantity quantity) before edited ∧
        Truthful (removeLine d line).2 (lineKey d line) (fun _ => none) before removed := by
  intro h
  obtain ⟨before, edited, -, hbefore, hedited, -, htruthful, -⟩ :=
    h struck reachable_struck rfl rfl 1 5 0 1
  have hcoherent := reachable_struck.coherent
  obtain ⟨edited', hedited', -, -, hiff⟩ :=
    (editsLine_setLineQuantity hcoherent rfl 1 5).truthful_iff hcoherent rfl hbefore 1
  obtain rfl : edited = edited' := Option.some.inj (hedited.symm.trans hedited')
  exact hiff.1 htruthful buried_struck

end Lines

end Orders

end VersionedRecords
