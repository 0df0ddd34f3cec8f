import VersionedRecords.Proofs.FoundChange

/-!
What accumulators hold.

Merging the changes of a collection does to what is pending under each key what the change of that
key says.  An accumulator that takes in nothing but well-formed changes keeps for every field what
its kind asks for and never falls silent: what was once spoken about is told in the end.
-/

namespace VersionedRecords

namespace Keyed

variable {C α : Type} {key : C → Key}

theorem Sorted.tabulates {cs : List C} (h : Sorted key cs) :
    Tabulates key (fun k => cs.find? fun c => key c = k) cs := by
  refine .of_nodup (List.pairwise_map.2 (h.imp ?_))
  intro a b hab heq
  simp [heq, Key.precedes_irrefl] at hab

/-- Merging the changes of a table does to what is pending under each key what the table says. -/
theorem find?_foldl_merge {merge : Keyed α → C → Keyed α} {merged : C → Option α → α}
    (hmerge : ∀ m c, merge m c = insert (key c) (merged c (find? (key c) m)) m)
    {f : Key → Option C} {cs : List C} (h : Tabulates key f cs) (m : Keyed α) (k : Key) :
    find? k (cs.foldl merge m) =
      (f k).elim (find? k m) fun c => some (merged c (find? k m)) := by
  refine h.look_foldl (fun m k => find? k m) (fun c v => some (merged c v)) (fun _ => True)
    (fun _ _ _ => trivial) (fun m c k _ => ?_) m trivial k
  rw [hmerge, find?_insert]
  by_cases hk : key c = k
  · rw [if_pos hk, if_pos hk, hk]
  · rw [if_neg hk, if_neg hk]

theorem ascending_foldl_merge {merge : Keyed α → C → Keyed α} {merged : C → Option α → α}
    (hmerge : ∀ m c, merge m c = insert (key c) (merged c (find? (key c) m)) m)
    (cs : List C) {m : Keyed α} (hm : Ascending m) : Ascending (cs.foldl merge m) := by
  induction cs generalizing m with
  | nil => exact hm
  | cons c cs ih =>
      rw [List.foldl_cons, hmerge]
      exact ih (ascending_insert hm _ _)

/-- Whatever holds of all that is merged holds of all that is pending. -/
theorem forall_foldl_merge {merge : Keyed α → C → Keyed α} {merged : C → Option α → α}
    (hmerge : ∀ m c, merge m c = insert (key c) (merged c (find? (key c) m)) m)
    {P : α → Prop} {cs : List C}
    (hmerged : ∀ c ∈ cs, ∀ v : Option α, (∀ x ∈ v, P x) → P (merged c v)) {m : Keyed α}
    (hP : ∀ e ∈ m, P e.2) : ∀ e ∈ cs.foldl merge m, P e.2 := by
  induction cs generalizing m with
  | nil => exact hP
  | cons c cs ih =>
      rw [List.forall_mem_cons] at hmerged
      rw [List.foldl_cons, hmerge]
      refine ih hmerged.2 fun e he => ?_
      rcases mem_insert he with rfl | he
      · exact hmerged.1 _ fun x hx => hP _ (mem_of_find? hx)
      · exact hP e he

theorem foldl_merge_ne_nil {merge : Keyed α → C → Keyed α} {merged : C → Option α → α}
    (hmerge : ∀ m c, merge m c = insert (key c) (merged c (find? (key c) m)) m)
    {cs : List C} {m : Keyed α} (h : cs ≠ [] ∨ m ≠ []) : cs.foldl merge m ≠ [] := by
  induction cs generalizing m with
  | nil => simpa using h
  | cons c cs ih =>
      rw [List.foldl_cons]
      refine ih (.inr ?_)
      rw [hmerge]
      intro hnil
      have hfind := find?_insert (key c) (key c) (merged c (find? (key c) m)) m
      rw [hnil] at hfind
      simp at hfind

end Keyed

/-! ### Intents -/

namespace IntentState

/-- The intent is to delete or the one of the beginning, as it is once later intents are taken
in. -/
def Settled (s : IntentState) : Prop := s.current = .delete ∨ s.current = s.reset.current

theorem settled_start (i : Intent) : (start i).Settled := by
  cases i <;> simp [Settled, start, reset]

theorem settled_absorb (s : IntentState) (i : Intent) : (s.absorb i).Settled := by
  unfold absorb
  split
  · exact .inl rfl
  · exact .inr rfl

/-- What is an update began with something that was there. -/
theorem Settled.initial_ne_add {s : IntentState} (hs : s.Settled) (hupdate : s.current = .update) :
    s.initial ≠ .add := by
  intro hadd
  have hreset := hs.resolve_left (by rw [hupdate]; decide)
  simp [hupdate, reset, hadd] at hreset

/-- What is not deleted in between keeps its intent. -/
theorem Settled.current_absorb {s : IntentState} (hs : s.Settled) (hcurrent : s.current ≠ .delete)
    {i : Intent} (hi : i ≠ .delete) : (s.absorb i).current = s.current := by
  rw [hs.resolve_left hcurrent, IntentState.current_absorb, if_neg hi]
  rfl

end IntentState

/-! ### Merging, key by key -/

namespace MemberChange

/-- What is pending for a member after a change of it. -/
def merged (c : MemberChange) (s : Option IntentState) : IntentState :=
  s.elim (.start c.intent) fun s => s.absorb c.intent

theorem mergeInto_eq (pending : Keyed IntentState) (c : MemberChange) :
    c.mergeInto pending = Keyed.insert c.key (c.merged (Keyed.find? c.key pending)) pending := by
  unfold mergeInto merged
  cases Keyed.find? c.key pending <;> rfl

theorem current_merged (c : MemberChange) (s : Option IntentState) :
    (c.merged s).current = .delete ↔ c.intent = .delete := by
  cases s with
  | none => rfl
  | some s => exact s.current_absorb_eq_delete_iff c.intent

end MemberChange

namespace EntryChange

/-- What is pending for an entry after a change of it. -/
def merged (c : EntryChange) (s : Option EntryState) : EntryState :=
  s.elim (.start c) fun s => s.absorb c

theorem mergeInto_eq (pending : Keyed EntryState) (c : EntryChange) :
    c.mergeInto pending = Keyed.insert c.key (c.merged (Keyed.find? c.key pending)) pending := by
  unfold mergeInto merged
  cases Keyed.find? c.key pending <;> rfl

theorem current_merged (c : EntryChange) (s : Option EntryState) :
    (c.merged s).state.current = .delete ↔ c.intent = .delete := by
  cases s with
  | none => rfl
  | some s => exact s.state.current_absorb_eq_delete_iff c.intent

theorem value_merged (c : EntryChange) (s : Option EntryState) : (c.merged s).value = c.value := by
  cases s <;> rfl

end EntryChange

theorem Accumulator.absorb_eq (c : Change) (a : Accumulator) :
    absorb c a =
      { a with state := a.state.absorb c.intent, fields := absorbFields c.fields a.fields } := by
  obtain ⟨layout, intent, key, fields⟩ := c
  rw [absorb]

/-- What is pending for a sub-record after a change of it. -/
def Accumulator.absorbRecord (c : Change) : Option Accumulator → Accumulator
  | some a => if c.intent = .update ∧ a.identity = c.identity then absorb c a else ofChange c
  | none => ofChange c

theorem Accumulator.absorbPayload_nested (c : Change) (q : Option Accumulator) :
    absorbPayload (.nested c) (.nested q) = .nested (some (absorbRecord c q)) := by
  cases q with
  | none => simp [absorbPayload, absorbRecord]
  | some a =>
      rw [absorbPayload, absorbRecord]
      split <;> rfl

namespace RecordEntryChange

/-- What is pending for an entry after a change of it. -/
def merged (c : RecordEntryChange Change) (s : Option (RecordEntryState Accumulator)) :
    RecordEntryState Accumulator :=
  ⟨s.elim (.start c.intent) fun s => s.state.absorb c.intent,
    Accumulator.absorbRecord c.change (s.map RecordEntryState.pending)⟩

theorem mergeEntry_eq (pending : Keyed (RecordEntryState Accumulator))
    (c : RecordEntryChange Change) :
    Accumulator.mergeEntry pending c =
      Keyed.insert c.key (c.merged (Keyed.find? c.key pending)) pending := by
  rw [Accumulator.mergeEntry, Accumulator.absorbEntries, Accumulator.absorbEntries, merged]
  cases Keyed.find? c.key pending <;> rfl

theorem current_merged (c : RecordEntryChange Change)
    (s : Option (RecordEntryState Accumulator)) :
    (c.merged s).state.current = .delete ↔ c.intent = .delete := by
  cases s with
  | none => rfl
  | some s => exact s.state.current_absorb_eq_delete_iff c.intent

theorem pending_merged (c : RecordEntryChange Change) (s : Option (RecordEntryState Accumulator)) :
    (c.merged s).pending =
      Accumulator.absorbRecord c.change (s.map RecordEntryState.pending) :=
  rfl

end RecordEntryChange

/-! ### Accumulators of sub-records -/

/-- The accumulators of sub-records directly below what is pending for one field. -/
def Pending.accumulators {α : Type} : Pending α → List α
  | .nested a => a.toList
  | .modelMap es => es.map fun e => e.2.pending
  | _ => []

/-- Whether anything has been merged for the field. -/
def Pending.isTouched {α : Type} : Pending α → Bool
  | .scalar v => v.isSome
  | .attached v => v.isSome
  | .nested a => a.isSome
  | .keySet es => !es.isEmpty
  | .valueMap es => !es.isEmpty
  | .modelMap es => !es.isEmpty

/-- The change brings a plain value if it sets the entry. -/
def EntryChange.Valued (c : EntryChange) : Prop :=
  (c.intent ≠ .delete → c.value ≠ none) ∧ ∀ v ∈ c.value, v.isPlain = true

/-- There is a plain value pending if the entry is to be set. -/
def EntryState.Valued (s : EntryState) : Prop :=
  (s.state.current ≠ .delete → s.value ≠ none) ∧ ∀ v ∈ s.value, v.isPlain = true

theorem EntryChange.Valued.merged {c : EntryChange} (hc : c.Valued) (s : Option EntryState) :
    (c.merged s).Valued := by
  rw [EntryState.Valued, Ne, current_merged, value_merged]
  exact hc

namespace Accumulator

theorem sizeOf_accumulator_lt {a b : Accumulator} {q : Pending Accumulator} (hq : q ∈ a.fields)
    (hb : b ∈ q.accumulators) : sizeOf b < sizeOf a := by
  obtain ⟨layout, state, key, fields⟩ := a
  have hfield := List.sizeOf_lt_of_mem hq
  have hbelow : sizeOf b < sizeOf q := by
    cases q with
    | nested c =>
        cases c with
        | none => simp [Pending.accumulators] at hb
        | some c =>
            obtain rfl : b = c := by simpa [Pending.accumulators] using hb
            simp +arith
    | modelMap es =>
        obtain ⟨e, he, rfl⟩ := List.mem_map.1 hb
        have hentry := List.sizeOf_lt_of_mem he
        obtain ⟨k, s, c⟩ := e
        simp only [Prod.mk.sizeOf_spec, RecordEntryState.mk.sizeOf_spec,
          Pending.modelMap.sizeOf_spec] at hentry ⊢
        omega
    | _ => simp [Pending.accumulators] at hb
  simp only [Accumulator.mk.sizeOf_spec] at hfield ⊢
  omega

/-- What holds of an accumulator whenever it holds of all accumulators directly below holds of every
accumulator. -/
theorem induction {P : Accumulator → Prop}
    (step : ∀ a, (∀ q ∈ a.fields, ∀ b ∈ q.accumulators, P b) → P a) (a : Accumulator) : P a := by
  apply step a
  intro q hq b hb
  exact induction step b
termination_by sizeOf a
decreasing_by exact sizeOf_accumulator_lt hq hb

mutual

/-- Whatever is pending has the form that its field asks for, and what is pending for a sub-record
is no update without anything to say. -/
def FieldsSound (models : String → Layout) : List FieldKind → List (Pending Accumulator) → Prop
  | [], [] => True
  | kind :: kinds, q :: qs => PendingSound models kind q ∧ FieldsSound models kinds qs
  | _, _ => False

def PendingSound (models : String → Layout) : FieldKind → Pending Accumulator → Prop
  | .scalar t, .scalar v => ∀ x ∈ v, x.Fits t
  | .attached t, .attached v => ∀ x ∈ v, ∀ y ∈ x, y.Fits t
  | .nested _, .nested none => True
  | .nested m, .nested (some a) => RecordSound models m a
  | .keySet _, .keySet pending => Keyed.Ascending pending
  | .valueMap _ t, .valueMap pending =>
    Keyed.Ascending pending ∧
      ∀ e ∈ pending, e.2.Valued ∧ ∀ v ∈ e.2.value, v.Fits t
  | .modelMap _ m, .modelMap pending => Keyed.Ascending pending ∧ EntriesSound models m pending
  | _, _ => False

def RecordSound (models : String → Layout) (m : String) : Accumulator → Prop
  | ⟨layout, state, _, fields⟩ =>
    layout = models m ∧ state.Settled ∧
      (state.current = .update → fields.any Pending.isTouched = true) ∧
      FieldsSound models layout.kinds fields

def EntriesSound (models : String → Layout) (m : String) :
    List (Key × RecordEntryState Accumulator) → Prop
  | [] => True
  | (_, ⟨_, a⟩) :: es => RecordSound models m a ∧ EntriesSound models m es

end

attribute [grind =] FieldsSound PendingSound RecordSound EntriesSound

variable {models : String → Layout}

theorem fieldsSound_iff {kinds : List FieldKind} {qs : List (Pending Accumulator)} :
    FieldsSound models kinds qs ↔ List.Forall₂ (PendingSound models) kinds qs := by
  induction kinds generalizing qs with
  | nil => cases qs <;> simp [FieldsSound]
  | cons kind kinds ih => cases qs <;> simp [FieldsSound, ih]

theorem recordSound_iff {m : String} {a : Accumulator} :
    RecordSound models m a ↔ a.layout = models m ∧ a.state.Settled ∧
      (a.state.current = .update → a.fields.any Pending.isTouched = true) ∧
      List.Forall₂ (PendingSound models) a.layout.kinds a.fields := by
  obtain ⟨layout, state, key, fields⟩ := a
  rw [RecordSound, fieldsSound_iff]

theorem entriesSound_iff {m : String} {es : Keyed (RecordEntryState Accumulator)} :
    EntriesSound models m es ↔ ∀ e ∈ es, RecordSound models m e.2.pending := by
  induction es with
  | nil => simp [EntriesSound]
  | cons e es ih => simp [EntriesSound, ih]

/-! ### What sound pending changes look like, kind by kind -/

theorem pendingSound_scalar {t : DatumType} {q : Pending Accumulator} :
    PendingSound models (.scalar t) q ↔ ∃ v : Option Datum, q = .scalar v ∧ ∀ x ∈ v, x.Fits t := by
  cases q <;> simp [PendingSound]

theorem pendingSound_attached {t : DatumType} {q : Pending Accumulator} :
    PendingSound models (.attached t) q ↔
      ∃ v : Option (Option Datum), q = .attached v ∧ ∀ x ∈ v, ∀ y ∈ x, y.Fits t := by
  cases q <;> simp [PendingSound]

theorem pendingSound_nested {m : String} {q : Pending Accumulator} :
    PendingSound models (.nested m) q ↔
      ∃ a : Option Accumulator, q = .nested a ∧ ∀ b ∈ a, RecordSound models m b := by
  cases q with
  | nested a => cases a <;> simp [PendingSound]
  | _ => simp [PendingSound]

theorem pendingSound_keySet {k : KeyType} {q : Pending Accumulator} :
    PendingSound models (.keySet k) q ↔
      ∃ pending : Keyed IntentState, q = .keySet pending ∧ Keyed.Ascending pending := by
  cases q <;> simp [PendingSound]

theorem pendingSound_valueMap {k : KeyType} {t : DatumType} {q : Pending Accumulator} :
    PendingSound models (.valueMap k t) q ↔
      ∃ pending : Keyed EntryState, q = .valueMap pending ∧ Keyed.Ascending pending ∧
        ∀ e ∈ pending, e.2.Valued ∧ ∀ v ∈ e.2.value, v.Fits t := by
  cases q <;> simp [PendingSound]

theorem pendingSound_modelMap {k : KeyType} {m : String} {q : Pending Accumulator} :
    PendingSound models (.modelMap k m) q ↔
      ∃ pending : Keyed (RecordEntryState Accumulator), q = .modelMap pending ∧
        Keyed.Ascending pending ∧ ∀ e ∈ pending, RecordSound models m e.2.pending := by
  cases q <;> simp [PendingSound, entriesSound_iff]

theorem pendingSound_zero (kind : FieldKind) : PendingSound models kind (.zero kind) := by
  cases kind with
  | valueMap k t => exact ⟨List.Pairwise.nil, by simp⟩
  | modelMap k m => exact ⟨List.Pairwise.nil, trivial⟩
  | keySet k => exact List.Pairwise.nil
  | _ => simp [PendingSound, Pending.zero]

theorem forall₂_sound_zeros (kinds : List FieldKind) :
    List.Forall₂ (PendingSound models) kinds (kinds.map Pending.zero) :=
  List.forall₂_map_right_iff.2 (List.forall₂_same.2 fun kind _ => pendingSound_zero kind)

/-! ### What is touched is told -/

theorem eq_of_build {a : Accumulator} {c : Change} (h : build a = some c) :
    c = ⟨a.layout, a.state.current, a.key, settleFields a.fields⟩ := by
  obtain ⟨layout, state, key, fields⟩ := a
  rw [build] at h
  exact (Option.some.inj (Option.ite_none_left_eq_some.1 h).2).symm

theorem any_isSome_settleFields {kinds : List FieldKind} {qs : List (Pending Accumulator)}
    (hqs : List.Forall₂ (PendingSound models) kinds qs)
    (ih : ∀ q ∈ qs, ∀ kind, PendingSound models kind q → (settle q).isSome = q.isTouched) :
    (settleFields qs).any Option.isSome = qs.any Pending.isTouched := by
  induction hqs with
  | nil => rw [settleFields]; rfl
  | @cons kind q kinds qs hq hqs ihqs =>
      rw [List.forall_mem_cons] at ih
      rw [settleFields, List.any_cons, List.any_cons, ih.1 kind hq, ihqs ih.2]

/-- What is pending for a sub-record makes a change. -/
def Tells (models : String → Layout) (a : Accumulator) : Prop :=
  ∀ m, RecordSound models m a →
    build a = some ⟨a.layout, a.state.current, a.key, settleFields a.fields⟩

theorem isSome_settle_of_tells {kind : FieldKind} {q : Pending Accumulator}
    (hq : PendingSound models kind q) (ih : ∀ a ∈ q.accumulators, Tells models a) :
    (settle q).isSome = q.isTouched := by
  cases q with
  | scalar v => cases v <;> simp [settle, Pending.isTouched]
  | attached v => cases v <;> simp [settle, Pending.isTouched]
  | nested a =>
      cases a with
      | none => simp [settle, Pending.isTouched]
      | some a =>
          cases kind <;> simp only [PendingSound] at hq
          simp [settle, Pending.isTouched, ih a (by simp [Pending.accumulators]) _ hq]
  | keySet pending =>
      cases pending <;> simp [settle, Pending.isTouched, MemberChange.settle, nonEmpty?]
  | valueMap pending =>
      cases pending <;> simp [settle, Pending.isTouched, EntryChange.settle, nonEmpty?]
  | modelMap pending =>
      cases pending with
      | nil => simp [settle, Pending.isTouched, settleEntries, nonEmpty?]
      | cons e pending =>
          obtain ⟨k, s, a⟩ := e
          cases kind <;> simp only [PendingSound, EntriesSound] at hq
          have ha := ih a (by simp [Pending.accumulators]) _ hq.2.1
          simp [settle, Pending.isTouched, settleEntries, ha, nonEmpty?]

theorem tells (a : Accumulator) : Tells models a := by
  induction a using Accumulator.induction with
  | step a ih =>
      intro m ha
      obtain ⟨-, -, htouched, hfields⟩ := recordSound_iff.1 ha
      have hany := any_isSome_settleFields hfields fun q hq kind hsound =>
        isSome_settle_of_tells hsound (ih q hq)
      obtain ⟨layout, state, key, fields⟩ := a
      dsimp only at htouched hany
      rw [build, if_neg]
      rintro ⟨hupdate, hnone⟩
      rw [hany, htouched hupdate] at hnone
      cases hnone

theorem RecordSound.build_eq {m : String} {a : Accumulator} (ha : RecordSound models m a) :
    build a = some ⟨a.layout, a.state.current, a.key, settleFields a.fields⟩ :=
  tells a m ha

theorem isSome_settle {kind : FieldKind} {q : Pending Accumulator}
    (hq : PendingSound models kind q) : (settle q).isSome = q.isTouched :=
  isSome_settle_of_tells hq fun a _ => tells a

/-- An accumulator makes no change only if it would be an update and nothing was merged. -/
theorem build_eq_ite {a : Accumulator}
    (ha : List.Forall₂ (PendingSound models) a.layout.kinds a.fields) :
    build a =
      if a.state.current = .update ∧ a.fields.any Pending.isTouched = false then none
      else some ⟨a.layout, a.state.current, a.key, settleFields a.fields⟩ := by
  have hany := any_isSome_settleFields ha fun q _ kind hq => isSome_settle hq
  obtain ⟨layout, state, key, fields⟩ := a
  dsimp only at hany
  rw [build, hany]

end Accumulator

/-! ### Well-formed changes -/

namespace Change

mutual

/-- Whatever sets an entry of a map brings a plain value, and so in all changes of sub-records. -/
def Valued : Change → Prop
  | ⟨_, _, _, fields⟩ => FieldsValued fields

def FieldsValued : List (Option (Payload Change)) → Prop
  | [] => True
  | none :: ps => FieldsValued ps
  | some p :: ps => PayloadValued p ∧ FieldsValued ps

def PayloadValued : Payload Change → Prop
  | .nested c => Valued c
  | .valueMap cs => ∀ c ∈ cs, c.Valued
  | .modelMap cs => EntriesValued cs
  | _ => True

def EntriesValued : List (RecordEntryChange Change) → Prop
  | [] => True
  | ⟨_, _, c⟩ :: cs => Valued c ∧ EntriesValued cs

end

theorem valued_iff {c : Change} : c.Valued ↔ ∀ p, some p ∈ c.fields → PayloadValued p := by
  obtain ⟨layout, intent, key, fields⟩ := c
  rw [Valued]
  induction fields with
  | nil => simp [FieldsValued]
  | cons p ps ih => cases p <;> simp [FieldsValued, ih]

theorem entriesValued_iff {cs : List (RecordEntryChange Change)} :
    EntriesValued cs ↔ ∀ c ∈ cs, c.change.Valued := by
  induction cs with
  | nil => simp [EntriesValued]
  | cons c cs ih => simp [EntriesValued, ih]

/-- The change is one that accumulators make: it has the form that its layout asks for, nothing in
it is empty, doubled or out of order, and what it sets it sets to a plain value. -/
structure WellFormed (models : String → Layout) (c : Change) : Prop where
  conforms : c.Conforms models
  canonical : c.Canonical
  valued : c.Valued

end Change

/-- In canonical order, each thing is said once. -/
theorem Payload.proper_of_canonical {kind : FieldKind} {p : Payload Change}
    (h : Change.PayloadCanonical kind p) : p.Proper kind := by
  cases kind <;> cases p <;> simp only [Change.PayloadCanonical] at h
  · trivial
  · trivial
  · exact h
  · exact ⟨h.1, h.2.tabulates.nodup⟩
  · exact ⟨h.1, h.2.tabulates.nodup⟩
  · exact ⟨h.1, h.2.1.tabulates.nodup, Change.entriesCanonical_iff.1 h.2.2⟩

/-- The same of what is carried for one field. -/
structure Payload.WellFormed (models : String → Layout) (kind : FieldKind) (p : Payload Change) :
    Prop where
  conforms : Change.PayloadConforms models kind p
  canonical : Change.PayloadCanonical kind p
  valued : Change.PayloadValued p

variable {models : String → Layout}

theorem Change.WellFormed.fields {c : Change} (hc : c.WellFormed models) :
    List.Forall₂ (fun kind p => ∀ q ∈ p, q.WellFormed models kind) c.layout.kinds c.fields := by
  have hconforms := conforms_iff.1 hc.conforms
  refine List.forall₂_iff_zip.2 ⟨hconforms.length_eq, fun hmem q hq => ⟨?_, ?_, ?_⟩⟩
  · exact (List.forall₂_iff_zip.1 hconforms).2 hmem q hq
  · exact (List.forall₂_iff_zip.1 (canonical_iff.1 hc.canonical).2).2 hmem q hq
  · exact valued_iff.1 hc.valued q (hq ▸ (List.of_mem_zip hmem).2)

theorem Change.WellFormed.any_isSome {c : Change} (hc : c.WellFormed models)
    (hupdate : c.intent = .update) : c.fields.any Option.isSome = true :=
  (canonical_iff.1 hc.canonical).1 hupdate

namespace Payload.WellFormed

theorem nested {m : String} {c : Change} (h : (Payload.nested c).WellFormed models (.nested m)) :
    c.layout = models m ∧ c.WellFormed models :=
  ⟨h.conforms.1, h.conforms.2, h.canonical, h.valued⟩

theorem modelMap {k : KeyType} {m : String} {cs : List (RecordEntryChange Change)}
    (h : (Payload.modelMap cs).WellFormed models (.modelMap k m)) :
    cs ≠ [] ∧ Keyed.Sorted RecordEntryChange.key cs ∧
      ∀ c ∈ cs, c.change.layout = models m ∧ c.change.WellFormed models := by
  obtain ⟨hne, hsorted, hcanonical⟩ := h.canonical
  refine ⟨hne, hsorted, fun c hc => ?_⟩
  obtain ⟨hlayout, hconforms⟩ := Change.entriesConform_iff.1 h.conforms c hc
  exact ⟨hlayout, hconforms, Change.entriesCanonical_iff.1 hcanonical c hc,
    Change.entriesValued_iff.1 h.valued c hc⟩

theorem proper {kind : FieldKind} {p : Payload Change} (h : p.WellFormed models kind) :
    p.Proper kind :=
  proper_of_canonical h.canonical

end Payload.WellFormed

/-- Beginning with a well-formed change amounts to merging it into nothing. -/
theorem Accumulator.ofChange_eq {c : Change} (hc : c.WellFormed models) :
    ofChange c = ⟨c.layout, .start c.intent, c.key,
      absorbFields c.fields (c.layout.kinds.map Pending.zero)⟩ := by
  have hproper : ProperFields c.layout.kinds c.fields :=
    hc.fields.imp fun _ _ h q hq => (h q hq).proper
  obtain ⟨layout, intent, key, fields⟩ := c
  rw [ofChange, absorbFields_zeros hproper]

/-! ### Soundness is kept -/

namespace Accumulator

/-- Taking the change in keeps what is pending for the fields sound, and whatever it speaks about is
pending from then on. -/
def KeepsSound (models : String → Layout) (c : Change) : Prop :=
  ∀ qs, List.Forall₂ (PendingSound models) c.layout.kinds qs →
    List.Forall₂ (PendingSound models) c.layout.kinds (absorbFields c.fields qs) ∧
      (absorbFields c.fields qs).any Pending.isTouched =
        (c.fields.any Option.isSome || qs.any Pending.isTouched)

theorem recordSound_absorbRecord {m : String} {c : Change} (hc : c.WellFormed models)
    (hlayout : c.layout = models m) (hkeeps : KeepsSound models c) {q : Option Accumulator}
    (hq : ∀ a ∈ q, RecordSound models m a) : RecordSound models m (absorbRecord c q) := by
  have hofChange : RecordSound models m (ofChange c) := by
    obtain ⟨hfields, htouched⟩ := hkeeps _ (forall₂_sound_zeros c.layout.kinds)
    rw [ofChange_eq hc]
    refine recordSound_iff.2
      ⟨hlayout, IntentState.settled_start c.intent, fun hupdate => ?_, hfields⟩
    rw [htouched, hc.any_isSome hupdate, Bool.true_or]
  cases q with
  | none => exact hofChange
  | some a =>
      rw [absorbRecord]
      split
      · next hsame =>
        obtain ⟨halayout, -, -, hafields⟩ := recordSound_iff.1 (hq a rfl)
        have hkinds : a.layout = c.layout := congrArg Identity.layout hsame.2
        obtain ⟨hfields, htouched⟩ := hkeeps a.fields (hkinds ▸ hafields)
        rw [hc.any_isSome hsame.1, Bool.true_or] at htouched
        rw [absorb_eq]
        exact recordSound_iff.2 ⟨halayout, IntentState.settled_absorb a.state c.intent,
          fun _ => htouched, hkinds ▸ hfields⟩
      · exact hofChange

theorem sound_absorbPayload {kind : FieldKind} {p : Payload Change}
    (hp : p.WellFormed models kind)
    (ih : ∀ c ∈ p.changes, c.WellFormed models → KeepsSound models c)
    {q : Pending Accumulator} (hq : PendingSound models kind q) :
    PendingSound models kind (absorbPayload p q) ∧ (absorbPayload p q).isTouched = true := by
  have hconforms := hp.conforms
  cases kind <;> cases p <;> simp only [Change.PayloadConforms] at hconforms
  · rw [absorbPayload]
    exact ⟨pendingSound_scalar.2 ⟨_, rfl, by simpa using hconforms⟩, rfl⟩
  · rw [absorbPayload]
    exact ⟨pendingSound_attached.2 ⟨_, rfl, by simpa using hconforms⟩, rfl⟩
  · next m c =>
    obtain ⟨a, rfl, ha⟩ := pendingSound_nested.1 hq
    obtain ⟨hlayout, hc⟩ := hp.nested
    have hrecord := recordSound_absorbRecord hc hlayout (ih c (by simp [Payload.changes]) hc) ha
    rw [absorbPayload_nested]
    exact ⟨pendingSound_nested.2 ⟨_, rfl, by simpa using hrecord⟩, rfl⟩
  · next k cs =>
    obtain ⟨pending, rfl, hpending⟩ := pendingSound_keySet.1 hq
    rw [absorbPayload, MemberChange.mergeAll]
    refine ⟨Keyed.ascending_foldl_merge MemberChange.mergeInto_eq cs hpending, ?_⟩
    simpa [Pending.isTouched] using
      Keyed.foldl_merge_ne_nil MemberChange.mergeInto_eq (.inl hp.canonical.1)
  · next k t cs =>
    obtain ⟨pending, rfl, hpending, hvalues⟩ := pendingSound_valueMap.1 hq
    rw [absorbPayload, EntryChange.mergeAll]
    refine ⟨⟨Keyed.ascending_foldl_merge EntryChange.mergeInto_eq cs hpending, ?_⟩, ?_⟩
    · refine Keyed.forall_foldl_merge EntryChange.mergeInto_eq
        (P := fun s => s.Valued ∧ ∀ v ∈ s.value, v.Fits t) ?_ hvalues
      intro c hc s _
      refine ⟨(hp.valued c hc).merged s, ?_⟩
      rw [EntryChange.value_merged]
      exact hconforms c hc
    · simpa [Pending.isTouched] using
        Keyed.foldl_merge_ne_nil EntryChange.mergeInto_eq (.inl hp.canonical.1)
  · next k m cs =>
    obtain ⟨pending, rfl, hpending, hrecords⟩ := pendingSound_modelMap.1 hq
    obtain ⟨hne, -, hcs⟩ := hp.modelMap
    rw [absorbPayload, absorbEntries_eq_foldl, pendingSound_modelMap]
    refine ⟨⟨_, rfl, Keyed.ascending_foldl_merge RecordEntryChange.mergeEntry_eq cs hpending, ?_⟩,
      ?_⟩
    · refine Keyed.forall_foldl_merge RecordEntryChange.mergeEntry_eq
        (P := fun s => RecordSound models m s.pending) ?_ hrecords
      intro c hc v hv
      refine recordSound_absorbRecord (hcs c hc).2 (hcs c hc).1
        (ih c.change (List.mem_map_of_mem hc) (hcs c hc).2) ?_
      intro a ha
      obtain ⟨s, hs, rfl⟩ := Option.map_eq_some_iff.1 ha
      exact hv s hs
    · simpa [Pending.isTouched] using
        Keyed.foldl_merge_ne_nil RecordEntryChange.mergeEntry_eq (.inl hne)

theorem keepsSound {c : Change} (hc : c.WellFormed models) : KeepsSound models c := by
  induction c using Change.induction with
  | step c ih =>
      intro qs hqs
      have hfields := hc.fields
      generalize c.fields = ps at ih hfields
      generalize c.layout.kinds = kinds at hqs hfields
      induction hfields generalizing qs with
      | nil =>
          cases hqs
          simp [absorbFields]
      | @cons kind p kinds ps hp hps ihps =>
          cases hqs with
          | @cons _ q _ qs hq hqs =>
              obtain ⟨hrest, htouched⟩ :=
                ihps qs (fun p hp => ih p (List.mem_cons_of_mem _ hp)) hqs
              cases p with
              | none =>
                  rw [absorbFields, List.any_cons, htouched, List.any_cons, List.any_cons]
                  refine ⟨.cons hq hrest, ?_⟩
                  cases q.isTouched <;> simp
              | some p =>
                  obtain ⟨hsound, htold⟩ := sound_absorbPayload (hp p rfl)
                    (fun c hmem hwf => ih p (by simp) c hmem hwf) hq
                  rw [absorbFields]
                  exact ⟨.cons hsound hrest, by simp [htold]⟩

/-- What is pending for a sub-record is sound after any well-formed change of a sub-record. -/
theorem RecordSound.absorbRecord {m : String} {c : Change} (hc : c.WellFormed models)
    (hlayout : c.layout = models m) {q : Option Accumulator}
    (hq : ∀ a ∈ q, RecordSound models m a) : RecordSound models m (absorbRecord c q) :=
  recordSound_absorbRecord hc hlayout (keepsSound hc) hq

/-! ### What is told conforms -/

/-- The change that what is pending for a sub-record makes conforms. -/
def TellsConforming (models : String → Layout) (a : Accumulator) : Prop :=
  ∀ m, RecordSound models m a → ∀ c ∈ build a, c.layout = models m ∧ c.Conforms models

theorem payloadConforms_settle {kind : FieldKind} {q : Pending Accumulator}
    (hq : PendingSound models kind q) (ih : ∀ a ∈ q.accumulators, TellsConforming models a) :
    ∀ p ∈ settle q, Change.PayloadConforms models kind p := by
  intro p hp
  have hamounts := amountsTo_of_mem_settle hp
  cases kind with
  | scalar t =>
      obtain ⟨v, rfl, hv⟩ := pendingSound_scalar.1 hq
      cases hamounts
      exact hv _ rfl
  | attached t =>
      obtain ⟨v, rfl, hv⟩ := pendingSound_attached.1 hq
      cases hamounts
      exact hv _ rfl
  | nested m =>
      obtain ⟨_, rfl, ha⟩ := pendingSound_nested.1 hq
      cases hamounts with
      | @nested a c hc => exact ih a (by simp [Pending.accumulators]) m (ha a rfl) c hc
  | keySet k =>
      obtain ⟨pending, rfl, -⟩ := pendingSound_keySet.1 hq
      cases hamounts
      trivial
  | valueMap k t =>
      obtain ⟨pending, rfl, -, hvalues⟩ := pendingSound_valueMap.1 hq
      cases hamounts
      intro c hc
      obtain ⟨e, he, rfl⟩ := List.mem_map.1 hc
      exact (hvalues e he).2
  | modelMap k m =>
      obtain ⟨pending, rfl, -, hrecords⟩ := pendingSound_modelMap.1 hq
      cases hamounts
      refine Change.entriesConform_iff.2 fun c hc => ?_
      obtain ⟨e, he, -, hbuild⟩ := built_of_mem_settleEntries hc
      exact ih e.2.pending (List.mem_map_of_mem he) m (hrecords e he) c.change hbuild

theorem forall₂_conforms_settleFields {kinds : List FieldKind} {qs : List (Pending Accumulator)}
    (hqs : List.Forall₂ (PendingSound models) kinds qs)
    (ih : ∀ q ∈ qs, ∀ a ∈ q.accumulators, TellsConforming models a) :
    List.Forall₂ (fun kind p => ∀ q ∈ p, Change.PayloadConforms models kind q) kinds
      (settleFields qs) := by
  induction hqs with
  | nil =>
      rw [settleFields]
      exact .nil
  | cons hq hqs ihqs =>
      rw [List.forall_mem_cons] at ih
      rw [settleFields]
      exact .cons (payloadConforms_settle hq ih.1) (ihqs ih.2)

theorem tellsConforming (a : Accumulator) : TellsConforming models a := by
  induction a using Accumulator.induction with
  | step a ih =>
      intro m ha c hc
      obtain ⟨hlayout, -, -, hfields⟩ := recordSound_iff.1 ha
      rw [ha.build_eq, Option.mem_some_iff] at hc
      subst hc
      exact ⟨hlayout, Change.conforms_iff.2 (forall₂_conforms_settleFields hfields ih)⟩

/-- The change that a sound accumulator makes conforms. -/
theorem conforms_of_build {a : Accumulator}
    (ha : List.Forall₂ (PendingSound models) a.layout.kinds a.fields) {c : Change}
    (hc : build a = some c) : c.Conforms models := by
  rw [build_eq_ite ha] at hc
  obtain ⟨-, hc⟩ := Option.ite_none_left_eq_some.1 hc
  cases hc
  exact Change.conforms_iff.2 (forall₂_conforms_settleFields ha fun _ _ b _ => tellsConforming b)

end Accumulator

end VersionedRecords
