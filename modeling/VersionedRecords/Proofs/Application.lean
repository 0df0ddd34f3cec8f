import VersionedRecords.Proofs.Canonical
import VersionedRecords.Proofs.Coherence
import VersionedRecords.Record.Patch

/-!
Applying changes to drafts.

A change of a sub-record meets a draft of that very sub-record or begins anew, and the entries of a
map are changed key by key.  Applying a conforming change to a coherent draft of the same kind of
record leaves the draft coherent.
-/

namespace VersionedRecords

namespace Change

theorem applyTo_eq (c : Change) (d : Draft) :
    c.applyTo d =
      if c.intent = .delete then d.reset.setLastIntent (some .delete)
      else { d with lastIntent := some c.intent, slots := applyFields c.fields d.slots } := by
  obtain ⟨layout, intent, key, fields⟩ := c
  rw [applyTo]

theorem identity_applyTo (c : Change) (d : Draft) : (c.applyTo d).identity = d.identity := by
  rw [applyTo_eq]
  split <;> rfl

theorem reference_applyTo (c : Change) (d : Draft) : (c.applyTo d).reference = d.reference := by
  rw [applyTo_eq]
  split <;> rfl

/-- The draft of a sub-record after a change of it: continued if it is the same record and the
change is not its creation, and otherwise begun from nothing. -/
def applyRecord (c : Change) : Option Draft → Draft
  | some d => if c.intent ≠ .add ∧ d.identity = c.identity then c.applyTo d else c.toDraft
  | none => c.toDraft

/-- The draft of a sub-record afterwards is the one that was held or a new one, with the change
applied. -/
theorem of_applyRecord {P : Draft → Prop} {c : Change} {d : Option Draft} (hnew : P c.toDraft)
    (hheld : ∀ e ∈ d, e.identity = c.identity → P (c.applyTo e)) : P (c.applyRecord d) := by
  unfold applyRecord
  cases d with
  | none => exact hnew
  | some d =>
      dsimp only
      split
      · next h => exact hheld d rfl h.2
      · exact hnew

theorem identity_toDraft (c : Change) : c.toDraft.identity = c.identity := by
  rw [toDraft, identity_applyTo]
  rfl

theorem identity_applyRecord (c : Change) (d : Option Draft) :
    (c.applyRecord d).identity = c.identity := by
  apply of_applyRecord (P := fun e => e.identity = c.identity)
  · exact identity_toDraft c
  · intro e _ hidentity
    rw [identity_applyTo, hidentity]

theorem applyRecord_of_held {c : Change} {d : Draft} (hintent : c.intent ≠ .add)
    (hidentity : d.identity = c.identity) : c.applyRecord (some d) = c.applyTo d :=
  if_pos ⟨hintent, hidentity⟩

theorem applyRecord_of_not_held {c : Change} {d : Option Draft}
    (h : ∀ e ∈ d, c.intent = .add ∨ e.identity ≠ c.identity) : c.applyRecord d = c.toDraft := by
  cases d with
  | none => rfl
  | some d =>
      refine if_neg ?_
      rintro ⟨hintent, hidentity⟩
      rcases h d rfl with h | h
      · exact hintent h
      · exact h hidentity

theorem applyPayload_nested (c : Change) (d : Option Draft) :
    applyPayload (.nested c) (.nested d) = .nested (some (c.applyRecord d)) := by
  cases d with
  | none => rw [applyPayload, applyRecord, toDraft]; simp
  | some d =>
      rw [applyPayload, applyRecord, toDraft]
      split <;> rfl

end Change

theorem Draft.apply_eq (d : Draft) (c : Change) :
    d.apply c = if d.key = c.key then .ok (c.applyTo d) else .error ⟨.apply, d.key, c.key⟩ := by
  rw [Draft.apply, requireSameKey]
  split <;> rfl

namespace RecordEntryChange

/-- The entries of a map after the change of one of them. -/
def applyTo (c : RecordEntryChange Change) (es : Keyed Draft) : Keyed Draft :=
  if c.intent = .delete then Keyed.erase c.key es
  else Keyed.insert c.key (c.change.applyRecord (Keyed.find? c.key es)) es

/-- What the change of an entry makes of the draft under its key. -/
def act (c : RecordEntryChange Change) (d : Option Draft) : Option Draft :=
  if c.intent = .delete then none else some (c.change.applyRecord d)

theorem find?_applyTo (c : RecordEntryChange Change) {es : Keyed Draft} (hes : Keyed.Ascending es)
    (k : Key) :
    Keyed.find? k (c.applyTo es) =
      if c.key = k then c.act (Keyed.find? k es) else Keyed.find? k es := by
  unfold applyTo act
  by_cases hdelete : c.intent = .delete
  · simp [hdelete, Keyed.find?_erase hes]
  · by_cases hk : c.key = k
    · subst hk
      simp [hdelete, Keyed.find?_insert]
    · simp [hdelete, hk, Keyed.find?_insert]

theorem ascending_applyTo (c : RecordEntryChange Change) {es : Keyed Draft}
    (hes : Keyed.Ascending es) : Keyed.Ascending (c.applyTo es) := by
  unfold applyTo
  split
  · exact Keyed.ascending_erase hes c.key
  · exact Keyed.ascending_insert hes c.key _

theorem mem_applyTo {c : RecordEntryChange Change} {es : Keyed Draft} {e : Key × Draft}
    (h : e ∈ c.applyTo es) :
    e = (c.key, c.change.applyRecord (Keyed.find? c.key es)) ∨ e ∈ es := by
  unfold applyTo at h
  split at h
  · exact .inr ((Keyed.erase_sublist c.key es).subset h)
  · exact Keyed.mem_insert h

theorem applyEntries_eq_foldl (cs : List (RecordEntryChange Change)) (es : Keyed Draft) :
    Change.applyEntries cs es = cs.foldl (fun es c => c.applyTo es) es := by
  induction cs generalizing es with
  | nil => rw [Change.applyEntries, List.foldl_nil]
  | cons c cs ih =>
      have hstep : Change.applyEntries (c :: cs) es = Change.applyEntries cs (c.applyTo es) := by
        rw [Change.applyEntries, applyTo]
        congr 1
        cases hfind : Keyed.find? c.key es with
        | none => rfl
        | some d =>
            simp only [Change.applyRecord]
            split
            · rfl
            · split <;> rfl
      rw [hstep, ih, List.foldl_cons]

theorem ascending_applyEntries (cs : List (RecordEntryChange Change)) {es : Keyed Draft}
    (hes : Keyed.Ascending es) : Keyed.Ascending (Change.applyEntries cs es) := by
  rw [applyEntries_eq_foldl]
  induction cs generalizing es with
  | nil => exact hes
  | cons c cs ih => exact ih (ascending_applyTo c hes)

/-- Where each change keeps what holds of all entries, so do several in order. -/
theorem forall_applyEntries {P : Draft → Prop} {cs : List (RecordEntryChange Change)}
    (hcs : ∀ c ∈ cs, ∀ d : Option Draft, (∀ e ∈ d, P e) → P (c.change.applyRecord d))
    {es : Keyed Draft} (hes : ∀ e ∈ es, P e.2) : ∀ e ∈ Change.applyEntries cs es, P e.2 := by
  rw [applyEntries_eq_foldl]
  induction cs generalizing es with
  | nil => exact hes
  | cons c cs ih =>
      rw [List.forall_mem_cons] at hcs
      apply ih hcs.2
      intro e he
      rcases mem_applyTo he with rfl | he
      · exact hcs.1 _ fun d hd => hes (c.key, d) (Keyed.mem_of_find? hd)
      · exact hes e he

/-- Applying a table of changes does to each entry what the table says about it. -/
theorem find?_applyEntries {f : Key → Option (RecordEntryChange Change)}
    {cs : List (RecordEntryChange Change)} (h : Keyed.Tabulates key f cs) {es : Keyed Draft}
    (hes : Keyed.Ascending es) (k : Key) :
    Keyed.find? k (Change.applyEntries cs es) =
      (f k).elim (Keyed.find? k es) fun c => c.act (Keyed.find? k es) := by
  rw [applyEntries_eq_foldl]
  exact h.look_foldl (fun es k => Keyed.find? k es) act Keyed.Ascending
    (fun _ c hs => ascending_applyTo c hs) (fun _ c k hs => find?_applyTo c hs k) es hes k

end RecordEntryChange

/-! ### Conforming changes -/

namespace Change

mutual

/-- What is carried for every field has the form that the layout asks for, and so in all changes of
sub-records. -/
def Conforms (models : String → Layout) : Change → Prop
  | ⟨layout, _, _, fields⟩ => FieldsConform models layout.kinds fields

def FieldsConform (models : String → Layout) :
    List FieldKind → List (Option (Payload Change)) → Prop
  | [], [] => True
  | _ :: kinds, none :: ps => FieldsConform models kinds ps
  | kind :: kinds, some p :: ps => PayloadConforms models kind p ∧ FieldsConform models kinds ps
  | _, _ => False

def PayloadConforms (models : String → Layout) : FieldKind → Payload Change → Prop
  | .scalar t, .scalar v => v.Fits t
  | .attached t, .attached v => ∀ x ∈ v, x.Fits t
  | .nested m, .nested c => c.layout = models m ∧ Conforms models c
  | .keySet _, .keySet _ => True
  | .valueMap _ t, .valueMap cs => ∀ c ∈ cs, ∀ v ∈ c.value, v.Fits t
  | .modelMap _ m, .modelMap cs => EntriesConform models m cs
  | _, _ => False

def EntriesConform (models : String → Layout) (m : String) :
    List (RecordEntryChange Change) → Prop
  | [] => True
  | ⟨_, _, c⟩ :: cs => (c.layout = models m ∧ Conforms models c) ∧ EntriesConform models m cs

end

variable {models : String → Layout}

theorem fieldsConform_iff {kinds : List FieldKind} {ps : List (Option (Payload Change))} :
    FieldsConform models kinds ps ↔
      List.Forall₂ (fun kind p => ∀ q ∈ p, PayloadConforms models kind q) kinds ps := by
  induction kinds generalizing ps with
  | nil => cases ps <;> simp [FieldsConform]
  | cons kind kinds ih =>
      cases ps with
      | nil => simp [FieldsConform]
      | cons p ps => cases p <;> simp [FieldsConform, ih]

theorem conforms_iff {c : Change} :
    c.Conforms models ↔
      List.Forall₂ (fun kind p => ∀ q ∈ p, PayloadConforms models kind q)
        c.layout.kinds c.fields := by
  obtain ⟨layout, intent, key, fields⟩ := c
  rw [Conforms, fieldsConform_iff]

theorem entriesConform_iff {m : String} {cs : List (RecordEntryChange Change)} :
    EntriesConform models m cs ↔
      ∀ c ∈ cs, c.change.layout = models m ∧ c.change.Conforms models := by
  induction cs with
  | nil => simp [EntriesConform]
  | cons c cs ih => simp [EntriesConform, ih]

/-! ### Coherence is kept -/

/-- The slot after what a change carries for its field. -/
def applySlot (p : Option (Payload Change)) (s : Slot Snapshot Draft) : Slot Snapshot Draft :=
  p.elim s fun p => .touched (applyPayload p s.working)

theorem applyFields_eq_zipWith {ps : List (Option (Payload Change))}
    {slots : List (Slot Snapshot Draft)} (h : ps.length = slots.length) :
    applyFields ps slots = List.zipWith applySlot ps slots := by
  induction ps generalizing slots with
  | nil =>
      obtain rfl := List.length_eq_zero_iff.1 h.symm
      simp [applyFields]
  | cons p ps ih =>
      cases slots with
      | nil => simp at h
      | cons s slots =>
          have hrest := ih (Nat.succ.inj h)
          cases p <;> simp [applyFields, applySlot, hrest]

/-- Applying the change to coherent drafts of its own kind of record leaves them coherent. -/
def KeepsCoherence (models : String → Layout) (c : Change) : Prop :=
  ∀ d : Draft, d.Coherent models → d.layout = c.layout → (c.applyTo d).Coherent models

theorem coherent_applyRecord {c : Change} (hc : c.KeepsCoherence models) {d : Option Draft}
    (hd : ∀ e ∈ d, e.Coherent models) : (c.applyRecord d).Coherent models := by
  apply of_applyRecord
  · exact hc _ (Draft.coherent_new c.layout c.key) rfl
  · intro e he hidentity
    exact hc e (hd e he) (congrArg Identity.layout hidentity)

theorem layout_applyRecord (c : Change) (d : Option Draft) :
    (c.applyRecord d).layout = c.layout :=
  congrArg Identity.layout (identity_applyRecord c d)

theorem workingCoheres_applyPayload {kind : FieldKind} {p : Payload Change}
    (hp : PayloadConforms models kind p)
    (ih : ∀ c ∈ p.changes, c.Conforms models → c.KeepsCoherence models) {w : Working Draft}
    (hw : Draft.WorkingCoheres models kind w) :
    Draft.WorkingCoheres models kind (applyPayload p w) := by
  cases kind <;> cases p <;> simp only [PayloadConforms] at hp
  · exact hp
  · exact hp
  · next m c =>
    obtain ⟨d, rfl, hd⟩ := Draft.workingCoheres_nested.1 hw
    rw [applyPayload_nested]
    refine ⟨(layout_applyRecord c d).trans hp.1, ?_⟩
    exact coherent_applyRecord (ih c (by simp [Payload.changes]) hp.2) fun e he => (hd e he).2
  · next k cs =>
    obtain ⟨ms, rfl, hms⟩ := Draft.workingCoheres_keySet.1 hw
    rw [applyPayload]
    exact MemberChange.ascending_applyAll cs hms
  · next k t cs =>
    obtain ⟨es, rfl, hes, hentries⟩ := Draft.workingCoheres_valueMap.1 hw
    rw [applyPayload]
    refine ⟨EntryChange.ascending_applyAll cs hes, ?_⟩
    intro e he
    rcases EntryChange.mem_applyAll he with he | ⟨c, hc, hv⟩
    · exact hentries e he
    · exact hp c hc e.2 hv
  · next k m cs =>
    obtain ⟨es, rfl, hes, hentries⟩ := Draft.workingCoheres_modelMap.1 hw
    rw [applyPayload]
    refine ⟨RecordEntryChange.ascending_applyEntries cs hes, Draft.entriesCohere_iff.2 ?_⟩
    apply RecordEntryChange.forall_applyEntries
      (P := fun d => d.layout = models m ∧ d.Coherent models) ?_ hentries
    intro c hc d hd
    obtain ⟨hlayout, hconforms⟩ := entriesConform_iff.1 hp c hc
    have hkeeps := ih c.change (List.mem_map_of_mem hc) hconforms
    exact ⟨(layout_applyRecord c.change d).trans hlayout,
      coherent_applyRecord hkeeps fun e he => (hd e he).2⟩

theorem advances_applyFields (ps : List (Option (Payload Change)))
    (slots : List (Slot Snapshot Draft)) :
    List.Forall₂ Slot.Advances slots (applyFields ps slots) := by
  induction slots generalizing ps with
  | nil =>
      cases ps with
      | nil => simp [applyFields]
      | cons p ps => cases p <;> simp [applyFields]
  | cons s slots ih =>
      cases ps with
      | nil =>
          rw [applyFields]
          · exact List.forall₂_same.2 fun s _ => .refl s
          · simp
          · simp
      | cons p ps =>
          cases p with
          | none =>
              rw [applyFields]
              exact .cons (.refl s) (ih ps)
          | some p =>
              rw [applyFields]
              exact .cons (.inl rfl) (ih ps)

/-- Applying a conforming change to a coherent draft of its kind of record leaves it coherent. -/
theorem keepsCoherence_of_conforms {c : Change} (hc : c.Conforms models) :
    c.KeepsCoherence models := by
  induction c using Change.induction with
  | step c ih =>
      intro d hd hlayout
      obtain ⟨-, hslots⟩ := Draft.coherent_iff.1 hd
      have hpayloads := conforms_iff.1 hc
      rw [← hlayout] at hpayloads
      rw [applyTo_eq]
      split
      · exact Draft.coherent_setLastIntent (Draft.coherent_reset hd) _
      · refine hd.advance (advances_applyFields c.fields d.slots) ?_ _
        rw [applyFields_eq_zipWith (hpayloads.length_eq.symm.trans hslots.length_eq)]
        refine forall₂_zipWith hpayloads hslots ?_
        intro kind p s hp _ hpc hsc
        cases p with
        | none => exact hsc
        | some p =>
            exact workingCoheres_applyPayload (hpc p rfl) (ih p hp)
              (Draft.workingCoheres_working hsc)

end Change

end VersionedRecords
