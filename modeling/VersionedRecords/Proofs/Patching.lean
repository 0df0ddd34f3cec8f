import VersionedRecords.Proofs.DraftDifference
import VersionedRecords.Proofs.FoundChange

/-!
Patching: applying what a comparison has found.

Applying to a stored version what leads from a base to a record gives the record exactly if the
stored version follows.  A stored version with the content of the base does.
-/

namespace VersionedRecords

namespace Draft

variable {models : String → Layout}

/-! ### Drafts begun over given values -/

/-- The slot stands for the value: it has not been touched since, or only been opened. -/
def StandsFor (s : Slot Snapshot Draft) (v : Value Snapshot) : Prop :=
  s = .deferred v ∨ s = .touched v.materialise

/-- The draft is about the record and its fields stand for the values. -/
structure Begun (identity : Identity) (values : List (Value Snapshot)) (d : Draft) : Prop where
  identity_eq : d.identity = identity
  standsFor : List.Forall₂ StandsFor d.slots values
  present : d.isDeleted = false

theorem begun_edit (s : Snapshot) : s.edit.Begun s.identity s.fields where
  identity_eq := rfl
  standsFor := List.forall₂_map_left_iff.2 (List.forall₂_same.2 fun _ _ => .inl rfl)
  present := rfl

theorem materialise_zero (kind : FieldKind) : (Value.zero kind).materialise = .zero kind := by
  cases kind <;> rfl

theorem begun_new (layout : Layout) (key : Key) :
    (Draft.new layout key).Begun ⟨layout, key⟩ layout.zeros where
  identity_eq := rfl
  standsFor := by
    refine List.forall₂_map_left_iff.2 (List.forall₂_map_right_iff.2 (List.forall₂_same.2 ?_))
    intro kind _
    exact .inr (by rw [materialise_zero])
  present := rfl

/-- The content of a field that began as a value, after what a change carries for it. -/
def patchedContent (p : Option (Payload Change)) (v : Value Snapshot) : Value Snapshot :=
  contentWorking (p.elim v.materialise fun p => Change.applyPayload p v.materialise)

theorem patchedContent_none (v : Value Snapshot) :
    patchedContent none v = Snapshot.bareValue v :=
  contentWorking_materialise v

theorem contentSlot_applySlot {s : Slot Snapshot Draft} {v : Value Snapshot} (h : StandsFor s v)
    (p : Option (Payload Change)) : contentSlot (Change.applySlot p s) = patchedContent p v := by
  cases p with
  | none =>
      rw [patchedContent_none]
      rcases h with rfl | rfl
      · rfl
      · exact contentWorking_materialise v
  | some p => rcases h with rfl | rfl <;> rfl

theorem map_contentSlot_applyFields {ps : List (Option (Payload Change))}
    {slots : List (Slot Snapshot Draft)} {values : List (Value Snapshot)}
    (hslots : List.Forall₂ StandsFor slots values) (hlength : ps.length = slots.length) :
    (Change.applyFields ps slots).map contentSlot = List.zipWith patchedContent ps values := by
  rw [Change.applyFields_eq_zipWith hlength]
  induction hslots generalizing ps with
  | nil => simp
  | @cons s v slots values hs hrest ih =>
      cases ps with
      | nil => simp at hlength
      | cons p ps => simp [contentSlot_applySlot hs, ih (Nat.succ.inj hlength)]

theorem content_of_begun {identity : Identity} {values : List (Value Snapshot)} {d : Draft}
    (hd : d.Begun identity values) :
    d.content = some ⟨identity.layout, identity.key, .zero, values.map Snapshot.bareValue⟩ := by
  obtain ⟨rfl, hslots, hpresent⟩ := hd
  have hvalues : d.slots.map contentSlot = values.map Snapshot.bareValue := by
    clear hpresent
    generalize d.slots = slots at hslots
    induction hslots with
    | nil => rfl
    | cons hs hrest ih =>
        rw [List.map_cons, List.map_cons, ih, ← patchedContent_none,
          ← contentSlot_applySlot hs none]
        rfl
  rw [content_eq, hpresent, if_neg Bool.false_ne_true, hvalues]
  rfl

theorem content_applyTo {c : Change} (hintent : c.intent ≠ .delete) {identity : Identity}
    {values : List (Value Snapshot)} {d : Draft} (hd : d.Begun identity values)
    (hlength : c.fields.length = values.length) :
    (c.applyTo d).content =
      some ⟨identity.layout, identity.key, .zero, List.zipWith patchedContent c.fields values⟩ := by
  obtain ⟨rfl, hslots, -⟩ := hd
  have hfields := map_contentSlot_applyFields hslots (hlength.trans hslots.length_eq.symm)
  rw [Change.applyTo_eq, if_neg hintent, content_eq]
  simp [isDeleted, hintent, hfields, identity]

theorem content_applyTo_delete {c : Change} (hintent : c.intent = .delete) (d : Draft) :
    (c.applyTo d).content = none := by
  rw [Change.applyTo_eq, if_pos hintent, content_eq_none_iff]
  rfl

theorem zipWith_patchedContent_none {ps : List (Option (Payload Change))}
    {values : List (Value Snapshot)} (hlength : ps.length = values.length)
    (hnone : ps.any Option.isSome = false) :
    List.zipWith patchedContent ps values = values.map Snapshot.bareValue := by
  induction ps generalizing values with
  | nil =>
      obtain rfl := List.length_eq_zero_iff.1 hlength.symm
      rfl
  | cons p ps ih =>
      cases values with
      | nil => simp at hlength
      | cons v values =>
          rw [List.any_cons, Bool.or_eq_false_iff] at hnone
          have hp : p = none := by simpa using hnone.1
          rw [List.zipWith_cons_cons, List.map_cons, ih (Nat.succ.inj hlength) hnone.2, hp,
            patchedContent_none]

end Draft

namespace Snapshot

open Draft

variable {models : String → Layout}

/-! ### Records -/

/-- What the change that leads from the base to the record carries for the fields. -/
def payloads (base : List (Value Snapshot)) (t : Snapshot) : List (Option (Payload Change)) :=
  (List.zipWith diffValue base t.fields).map (Option.map Payload.sorted)

theorem diffFrom_eq_ite {t : Snapshot} (ht : t.Conforms models) {base : List (Value Snapshot)}
    (hbase : IsBase models t.layout base) (intent : Intent) :
    t.diffFrom intent base =
      if intent = .update ∧ (t.payloads base).any Option.isSome = false then none
      else some ⟨t.layout, intent, t.key, t.payloads base⟩ := by
  rw [diffFrom_eq, Accumulator.gather_eq (diffsProperly_of_conforms ht base hbase.conforms),
    payloads, Accumulator.any_isSome_map_sorted]

theorem length_payloads {t : Snapshot} (ht : t.Conforms models) {base : List (Value Snapshot)}
    (hbase : IsBase models t.layout base) : (t.payloads base).length = t.layout.kinds.length := by
  have hfields := (conforms_iff.1 ht).length_eq
  have hlength := hbase.conforms.length_eq
  simp [payloads, ← hlength, ← hfields]

/-- Whatever conforming version is stored, applying to it what leads from the base to the record
gives the record exactly if the stored version follows. -/
def Patches (models : String → Layout) (t : Snapshot) : Prop :=
  ∀ base stored, IsBase models t.layout base → IsBase models t.layout stored →
    (List.zipWith patchedContent (t.payloads base) stored = t.fields.map bareValue ↔
      t.Follows base stored)

theorem Patches.content_iff {t : Snapshot} (h : t.Patches models) (ht : t.Conforms models)
    {base stored : List (Value Snapshot)} (hbase : IsBase models t.layout base)
    (hstored : IsBase models t.layout stored) (intent : Intent) (hintent : intent ≠ .delete)
    {d : Draft} (hd : d.Begun t.identity stored) :
    ((t.diffFrom intent base).elim d fun c => c.applyTo d).content = some t.bare ↔
      t.Follows base stored := by
  have hlength : (t.payloads base).length = stored.length :=
    (length_payloads ht hbase).trans hstored.conforms.length_eq
  have hcontent : ((t.diffFrom intent base).elim d fun c => c.applyTo d).content =
      some ⟨t.layout, t.key, .zero, List.zipWith patchedContent (t.payloads base) stored⟩ := by
    rw [diffFrom_eq_ite ht hbase]
    split
    · next hnone =>
      rw [zipWith_patchedContent_none hlength hnone.2]
      exact content_of_begun hd
    · exact content_applyTo hintent hd hlength
  rw [hcontent, ← h base stored hbase hstored, bare_eq]
  simp

/-- The stored sub-record after the change that leads from one version of it to another. -/
def patchedRecord (base stored current : Option Snapshot) : Option Draft :=
  (recordChange? base current).elim (stored.map Snapshot.edit) fun c =>
    some (c.applyRecord (stored.map Snapshot.edit))

theorem bind_content_map_edit (s : Option Snapshot) :
    (s.map Snapshot.edit).bind content = s.map bare := by
  cases s with
  | none => rfl
  | some s => exact content_edit s

theorem content_applyRecord_delete {c : Change} (hintent : c.intent = .delete)
    (d : Option Draft) : (c.applyRecord d).content = none := by
  have hdelete : ∀ d : Draft, (c.applyTo d).content = none := content_applyTo_delete hintent
  unfold Change.applyRecord
  cases d with
  | none => exact hdelete _
  | some d =>
      dsimp only
      split
      · exact hdelete d
      · exact hdelete _

/-- The draft that begins with the change that leads from the base to the record. -/
theorem Patches.content_toDraft_iff {t : Snapshot} (h : t.Patches models) (ht : t.Conforms models)
    {base : List (Value Snapshot)} (hbase : IsBase models t.layout base) {intent : Intent}
    (hintent : intent ≠ .delete) {c : Change} (hc : t.diffFrom intent base = some c) :
    c.toDraft.content = some t.bare ↔ t.Follows base t.layout.zeros := by
  obtain ⟨hidentity, -⟩ := of_diffFrom hc
  simp only [Change.identity, identity, Identity.mk.injEq] at hidentity
  have hnew := h.content_iff ht hbase (isBase_zeros t.layout) intent hintent
    (begun_new t.layout t.key)
  rw [hc] at hnew
  rw [Change.toDraft, hidentity.1, hidentity.2]
  exact hnew

theorem content_patchedRecord_add {base stored : Option Snapshot} {t : Snapshot}
    (ht : t.Conforms models) (h : t.Patches models)
    (hadd : recordChange? base (some t) = t.diffFrom .add t.layout.zeros) :
    (patchedRecord base stored (some t)).bind content = some t.bare := by
  obtain ⟨c, hc⟩ := Option.isSome_iff_exists.1 (diffFrom_add_isSome t.layout.zeros t)
  obtain ⟨-, hintent⟩ := of_diffFrom hc
  have hzeros := @isBase_zeros models t.layout
  have hself := follows_self ht hzeros.conforms
  rw [patchedRecord, hadd, hc, Option.elim_some, Option.bind_some,
    Change.applyRecord_of_not_held fun _ _ => .inl hintent]
  exact (h.content_toDraft_iff ht hzeros (by decide) hc).2 hself

theorem content_patchedRecord_of_held {r s t : Snapshot} (hr : r.Conforms models ∧ r.isPlain = true)
    (hs : s.Conforms models ∧ s.isPlain = true) (ht : t.Conforms models) (h : t.Patches models)
    (hri : r.identity = t.identity) (hsi : s.identity = t.identity) :
    (patchedRecord (some r) (some s) (some t)).bind content = some t.bare ↔
      t.Follows r.fields s.fields := by
  have hrbase := isBase_fields hr.1 hr.2 (congrArg Identity.layout hri)
  have hsbase := isBase_fields hs.1 hs.2 (congrArg Identity.layout hsi)
  have hchange : recordChange? (some r) (some t) = t.diffFrom .update r.fields := if_pos hri
  have hbegun : s.edit.Begun t.identity s.fields := hsi ▸ begun_edit s
  have hcontent := h.content_iff ht hrbase hsbase .update (by decide) hbegun
  rw [patchedRecord, hchange, Option.map_some]
  cases hc : t.diffFrom .update r.fields with
  | none =>
      rw [hc] at hcontent
      exact hcontent
  | some c =>
      rw [hc] at hcontent
      obtain ⟨hci, hintent⟩ := of_diffFrom hc
      have hrecord : c.applyRecord (some s.edit) = c.applyTo s.edit :=
        Change.applyRecord_of_held (by rw [hintent]; decide) (hsi.trans hci.symm)
      rw [Option.elim_some, Option.bind_some, hrecord]
      exact hcontent

/-- If the record is not stored any more, the change brings back only what it carries. -/
theorem content_patchedRecord_of_not_held {r t : Snapshot} {stored : Option Snapshot}
    (hr : r.Conforms models ∧ r.isPlain = true) (ht : t.Conforms models)
    (hplain : t.isPlain = true) (h : t.Patches models) (hri : r.identity = t.identity)
    (hstored : ∀ s ∈ stored, s.identity ≠ t.identity) :
    (patchedRecord (some r) stored (some t)).bind content = some t.bare ↔
      r.bare ≠ t.bare ∧ t.Follows r.fields t.layout.zeros := by
  have hrbase := isBase_fields hr.1 hr.2 (congrArg Identity.layout hri)
  have hchange : recordChange? (some r) (some t) = t.diffFrom .update r.fields := if_pos hri
  have hexact := (diffsExactly_of_conforms ht hplain).update_eq_none_iff hr.1 hr.2 hri
  rw [patchedRecord, hchange]
  cases hc : t.diffFrom .update r.fields with
  | none =>
      have hbare := hexact.1 hc
      have hother : stored.map bare ≠ some t.bare := by
        intro hsome
        obtain ⟨s, hs, hbare⟩ := Option.map_eq_some_iff.1 hsome
        exact hstored s hs (bare_eq_iff.1 hbare).1
      rw [Option.elim_none, bind_content_map_edit]
      simp [hbare, hother]
  | some c =>
      have hbare : r.bare ≠ t.bare := by
        intro hbare
        rw [hexact.2 hbare] at hc
        cases hc
      have hrecord : c.applyRecord (stored.map edit) = c.toDraft := by
        refine Change.applyRecord_of_not_held ?_
        intro d hd
        obtain ⟨s, hs, rfl⟩ := Option.map_eq_some_iff.1 hd
        exact .inr fun heq => hstored s hs (heq.trans (of_diffFrom hc).1)
      rw [Option.elim_some, Option.bind_some, hrecord]
      simpa [hbare] using h.content_toDraft_iff ht hrbase (by decide) hc

theorem content_patchedRecord_update {r t : Snapshot} {stored : Option Snapshot}
    (hr : r.Conforms models ∧ r.isPlain = true)
    (hstored : ∀ s ∈ stored, s.Conforms models ∧ s.isPlain = true)
    (ht : t.Conforms models) (hplain : t.isPlain = true) (h : t.Patches models)
    (hri : r.identity = t.identity) :
    (patchedRecord (some r) stored (some t)).bind content = some t.bare ↔
      RecordFollows (some r) stored t := by
  rw [recordFollows_some_iff hri, FollowsFrom]
  cases hheld : held t.identity stored with
  | some s =>
      obtain ⟨rfl, hsi⟩ := held_eq_some_iff.1 hheld
      exact content_patchedRecord_of_held hr (hstored s rfl) ht h hri hsi
  | none =>
      exact content_patchedRecord_of_not_held hr ht hplain h hri (held_eq_none_iff.1 hheld)

/-- Applying to a stored sub-record what leads from one version of it to another gives the latter
exactly if the stored version follows. -/
theorem content_patchedRecord_iff {m : String} {base stored current : Option Snapshot}
    (hbase : FitsField models m base) (hstored : FitsField models m stored)
    (hcurrent : FitsField models m current) (ih : ∀ t ∈ current, t.Patches models) :
    (patchedRecord base stored current).bind content = current.map bare ↔
      OptionFollows base stored current := by
  cases current with
  | none =>
      cases base with
      | none =>
          rw [patchedRecord, recordChange?, Option.elim_none, bind_content_map_edit]
          simp [OptionFollows]
      | some r =>
          obtain ⟨c, hc, hteardown⟩ := exists_teardown (hbase r rfl).2.1
          rw [patchedRecord, recordChange?, hc, Option.elim_some, Option.bind_some,
            content_applyRecord_delete hteardown.intent]
          simp [OptionFollows]
  | some t =>
      obtain ⟨-, ht, hplain⟩ := hcurrent t rfl
      have hpatches := ih t rfl
      cases base with
      | none =>
          have hadd : (patchedRecord none stored (some t)).bind content = some t.bare :=
            content_patchedRecord_add ht hpatches rfl
          rw [Option.map_some, OptionFollows, recordFollows_iff]
          simp [hadd]
      | some r =>
          obtain ⟨-, hr⟩ := hbase r rfl
          by_cases hidentity : r.identity = t.identity
          · exact content_patchedRecord_update hr (fun s hs => (hstored s hs).2) ht hplain hpatches
              hidentity
          · have hchange : recordChange? (some r) (some t) = t.diffFrom .add t.layout.zeros :=
              if_neg hidentity
            have hadd : (patchedRecord (some r) stored (some t)).bind content = some t.bare :=
              content_patchedRecord_add ht hpatches hchange
            rw [Option.map_some, OptionFollows, recordFollows_iff]
            simp [hadd, hidentity]

/-! ### Fields -/

theorem patchedContent_keySet (cs : List MemberChange) (o : Origin) (ms : List Key) :
    patchedContent (((nonEmpty? cs).map Payload.keySet).map Payload.sorted) (.keySet o ms) =
      .keySet .zero (MemberChange.applyAll (MemberChange.settle (MemberChange.collect cs)) ms) := by
  cases cs with
  | nil => rw [nonEmpty?]; simp [patchedContent_none, bareValue]; rfl
  | cons c cs =>
      simp [nonEmpty?, Payload.sorted, patchedContent, Value.materialise, Change.applyPayload,
        contentWorking]

theorem patchedContent_nested (base stored current : Option Snapshot) :
    patchedContent (((recordChange? base current).map Payload.nested).map Payload.sorted)
      (.nested stored) = .nested ((patchedRecord base stored current).bind content) := by
  rw [patchedRecord]
  cases recordChange? base current with
  | none =>
      rw [Option.map_none, Option.map_none, patchedContent_none, bareValue_nested,
        Option.elim_none, bind_content_map_edit]
  | some c =>
      change contentWorking (Change.applyPayload (.nested c) (.nested (stored.map edit))) = _
      rw [Change.applyPayload_nested, contentWorking_nested]
      rfl

theorem patchedContent_valueMap (cs : List EntryChange) (o : Origin) (es : Keyed Datum) :
    patchedContent (((nonEmpty? cs).map Payload.valueMap).map Payload.sorted) (.valueMap o es) =
      .valueMap .zero (EntryChange.applyAll (EntryChange.settle (EntryChange.collect cs)) es) := by
  cases cs with
  | nil => rw [nonEmpty?]; simp [patchedContent_none, bareValue]; rfl
  | cons c cs =>
      simp [nonEmpty?, Payload.sorted, patchedContent, Value.materialise, Change.applyPayload,
        contentWorking]

theorem patchedContent_modelMap (cs : List (RecordEntryChange Change)) (o : Origin)
    (es : Keyed Snapshot) :
    patchedContent (((nonEmpty? cs).map Payload.modelMap).map Payload.sorted) (.modelMap o es) =
      .modelMap .zero (contentEntries (Change.applyEntries (RecordEntryChange.sorted cs)
        (es.map fun e => (e.1, e.2.edit)))) := by
  cases cs with
  | nil =>
      simp [nonEmpty?, patchedContent, Value.materialise, contentWorking,
        RecordEntryChange.sorted, Accumulator.ofEntries, Keyed.ofList, Accumulator.settleEntries,
        Change.applyEntries]
  | cons c cs =>
      simp [nonEmpty?, Payload.sorted, patchedContent, Value.materialise, Change.applyPayload,
        contentWorking]

/-- The change of an entry does to the stored sub-record what the change of a sub-record does. -/
theorem bind_content_act (base stored current : Option Snapshot) (k : Key) :
    (((recordChange? base current).map (RecordEntryChange.mk (entryIntent base current) k)).elim
        (stored.map edit) fun c => c.act (stored.map edit)).bind content =
      (patchedRecord base stored current).bind content := by
  rw [patchedRecord]
  cases hc : recordChange? base current with
  | none => rfl
  | some c =>
      rw [Option.map_some, Option.elim_some, Option.elim_some, RecordEntryChange.act]
      by_cases hdelete : entryIntent base current = .delete
      · have hintent : c.intent = .delete := by
          cases current with
          | some t => cases base <;> simp [entryIntent] at hdelete
          | none =>
              cases base with
              | none => simp [entryIntent] at hdelete
              | some r =>
                  exact (of_teardown hc).2
        rw [if_pos hdelete, Option.bind_some, content_applyRecord_delete hintent]
        rfl
      · rw [if_neg hdelete]

theorem contentEntries_applyEntries_eq_iff {m : String} {r s v : Keyed Snapshot}
    (hr : FitsEntries models m r) (hs : FitsEntries models m s) (hv : FitsEntries models m v)
    (ih : ∀ e ∈ v, e.2.Patches models) :
    contentEntries (Change.applyEntries (RecordEntryChange.sorted (RecordEntryChange.between r v))
        (s.map fun e => (e.1, e.2.edit))) = bareEntries v ↔
      ∀ k, OptionFollows (Keyed.find? k r) (Keyed.find? k s) (Keyed.find? k v) := by
  have hedits : Keyed.Ascending (s.map fun e => (e.1, e.2.edit)) :=
    List.pairwise_map.2 hs.ascending
  have happlied := RecordEntryChange.ascending_applyEntries
    (RecordEntryChange.sorted (RecordEntryChange.between r v)) hedits
  have hkey : ∀ k, Keyed.find? k (contentEntries (Change.applyEntries
        (RecordEntryChange.sorted (RecordEntryChange.between r v))
        (s.map fun e => (e.1, e.2.edit)))) = Keyed.find? k (bareEntries v) ↔
      OptionFollows (Keyed.find? k r) (Keyed.find? k s) (Keyed.find? k v) := by
    intro k
    rw [find?_contentEntries happlied,
      RecordEntryChange.find?_applyEntries (tabulates_sorted_between hr hv) hedits,
      Keyed.find?_map, find?_bareEntries, bind_content_act,
      content_patchedRecord_iff (hr.find? k) (hs.find? k) (hv.find? k)]
    exact fun t ht => ih (k, t) (Keyed.mem_of_find? ht)
  rw [← forall_congr' hkey]
  constructor
  · intro h k
    rw [h]
  · exact Keyed.ext_find? (ascending_contentEntries happlied)
      (ascending_bareEntries.2 hv.ascending)

theorem patchedContent_eq_iff {kind : FieldKind} {r s v : Value Snapshot}
    (hr : ValueConforms models kind r) (hs : ValueConforms models kind s)
    (hv : ValueConforms models kind v) (hrp : plainValue r = true) (hsp : plainValue s = true)
    (hvp : plainValue v = true)
    (ih : ∀ t ∈ v.records, t.Conforms models → t.isPlain = true → t.Patches models) :
    patchedContent ((diffValue r v).map Payload.sorted) s = bareValue v ↔ ValueFollows r s v := by
  cases kind with
  | scalar t =>
      obtain ⟨x, rfl, -⟩ := valueConforms_scalar.1 hr
      obtain ⟨y, rfl, -⟩ := valueConforms_scalar.1 hs
      obtain ⟨z, rfl, -⟩ := valueConforms_scalar.1 hv
      have hxz : x.same z = true ↔ x = z := Datum.same_iff_eq hrp hvp
      rw [diffValue, ValueFollows]
      by_cases heq : x = z
      · rw [if_pos (hxz.2 heq), Option.map_none, patchedContent_none, bareValue, bareValue]
        simp [heq]
      · rw [if_neg fun h => heq (hxz.1 h)]
        simp [heq, patchedContent, Payload.sorted, Change.applyPayload, contentWorking, bareValue]
  | attached t =>
      obtain ⟨x, rfl, -⟩ := valueConforms_attached.1 hr
      obtain ⟨y, rfl, -⟩ := valueConforms_attached.1 hs
      obtain ⟨z, rfl, -⟩ := valueConforms_attached.1 hv
      have hxz : Datum.sameOption x z = true ↔ x = z := by
        apply Datum.sameOption_iff_eq
        · simpa [plainValue, Option.all_eq_true] using hrp
        · simpa [plainValue, Option.all_eq_true] using hvp
      rw [diffValue, ValueFollows]
      by_cases heq : x = z
      · rw [if_pos (hxz.2 heq), Option.map_none, patchedContent_none, bareValue, bareValue]
        simp [heq]
      · rw [if_neg fun h => heq (hxz.1 h)]
        simp [heq, patchedContent, Payload.sorted, Change.applyPayload, contentWorking, bareValue]
  | nested m =>
      obtain ⟨x, rfl, hx⟩ := valueConforms_nested.1 hr
      obtain ⟨y, rfl, hy⟩ := valueConforms_nested.1 hs
      obtain ⟨z, rfl, hz⟩ := valueConforms_nested.1 hv
      have hxf := fitsField_of_conforms hx hrp
      have hzf := fitsField_of_conforms hz hvp
      have hpatched : patchedContent ((diffValue (.nested x) (.nested z)).map Payload.sorted)
          (.nested y) = .nested ((patchedRecord x y z).bind content) := by
        rw [diffValue_nested fun t ht => (hxf t ht).2]
        exact patchedContent_nested x y z
      rw [hpatched, bareValue_nested, Value.nested.injEq, valueFollows_nested]
      refine content_patchedRecord_iff hxf (fitsField_of_conforms hy hsp) hzf ?_
      intro t ht
      exact ih t (by simpa [Value.records] using ht) (hzf t ht).2.1 (hzf t ht).2.2
  | keySet k =>
      obtain ⟨o, x, rfl, hx⟩ := valueConforms_keySet.1 hr
      obtain ⟨o', y, rfl, hy⟩ := valueConforms_keySet.1 hs
      obtain ⟨o'', z, rfl, hz⟩ := valueConforms_keySet.1 hv
      rw [diffValue_keySet hx, patchedContent_keySet, ValueFollows,
        ← MemberChange.applyAll_between_eq_iff hx hy hz]
      simp [bareValue]
  | valueMap k t =>
      obtain ⟨o, x, rfl, hx, -⟩ := valueConforms_valueMap.1 hr
      obtain ⟨o', y, rfl, hy, -⟩ := valueConforms_valueMap.1 hs
      obtain ⟨o'', z, rfl, hz, -⟩ := valueConforms_valueMap.1 hv
      simp only [plainValue, List.all_eq_true] at hrp hsp hvp
      rw [diffValue_valueMap hx hrp, patchedContent_valueMap, ValueFollows,
        ← EntryChange.applyAll_between_eq_iff hx hy hz hrp hsp hvp]
      simp [bareValue]
  | modelMap k m =>
      obtain ⟨o, x, rfl, hx, hxe⟩ := valueConforms_modelMap.1 hr
      obtain ⟨o', y, rfl, hy, hye⟩ := valueConforms_modelMap.1 hs
      obtain ⟨o'', z, rfl, hz, hze⟩ := valueConforms_modelMap.1 hv
      rw [plainValue] at hrp hsp hvp
      have hxf := fitsEntries_of_conforms hx hxe hrp
      have hzf := fitsEntries_of_conforms hz hze hvp
      rw [diffValue_modelMap hx fun e he => (hxf.fits e he).2, patchedContent_modelMap,
        valueFollows_modelMap hz, bareValue, Value.modelMap.injEq]
      simp only [true_and]
      refine contentEntries_applyEntries_eq_iff hxf (fitsEntries_of_conforms hy hye hsp) hzf ?_
      exact fun e he => ih e.2 (List.mem_map_of_mem he) (hzf.fits e he).2.1 (hzf.fits e he).2.2

theorem zipWith_patchedContent_eq_iff {kinds : List FieldKind} {rs ss vs : List (Value Snapshot)}
    (hrs : List.Forall₂ (ValueConforms models) kinds rs)
    (hss : List.Forall₂ (ValueConforms models) kinds ss)
    (hvs : List.Forall₂ (ValueConforms models) kinds vs)
    (hrp : ∀ r ∈ rs, plainValue r = true) (hsp : ∀ s ∈ ss, plainValue s = true)
    (hvp : ∀ v ∈ vs, plainValue v = true)
    (ih : ∀ v ∈ vs, ∀ t ∈ v.records, t.Conforms models → t.isPlain = true → t.Patches models) :
    List.zipWith patchedContent ((List.zipWith diffValue rs vs).map (Option.map Payload.sorted)) ss
        = vs.map bareValue ↔ FieldsFollow rs ss vs := by
  induction hrs generalizing ss vs with
  | nil =>
      cases hss
      cases hvs
      simp [FieldsFollow]
  | @cons kind r kinds rs hr hrs ihrs =>
      cases hss with
      | @cons _ s _ ss hs hss =>
          cases hvs with
          | @cons _ v _ vs hv hvs =>
              simp only [List.forall_mem_cons] at hrp hsp hvp ih
              have hhead := patchedContent_eq_iff hr hs hv hrp.1 hsp.1 hvp.1 ih.1
              have htail := ihrs hss hvs hrp.2 hsp.2 hvp.2 ih.2
              rw [FieldsFollow, ← hhead, ← htail, List.zipWith_cons_cons, List.map_cons,
                List.zipWith_cons_cons, List.map_cons, List.cons.injEq]

theorem patches_of_conforms {t : Snapshot} (ht : t.Conforms models) (hplain : t.isPlain = true) :
    t.Patches models := by
  induction t using Snapshot.induction with
  | step t ih =>
      intro base stored hbase hstored
      rw [follows_iff]
      exact zipWith_patchedContent_eq_iff hbase.conforms hstored.conforms (conforms_iff.1 ht)
        hbase.plain hstored.plain (isPlain_iff.1 hplain) ih

/-! ### Whole records -/

/-- Applying to a stored version what leads from a base to a record gives the record exactly if the
stored version follows; in any case the outcome is coherent. -/
theorem content_applyTo_edit_iff {base stored t : Snapshot}
    (hbase : base.Conforms models ∧ base.isPlain = true)
    (hstored : stored.Conforms models ∧ stored.isPlain = true)
    (ht : t.Conforms models ∧ t.isPlain = true) (hbi : base.identity = t.identity)
    (hsi : stored.identity = t.identity) {intent : Intent} (hintent : intent ≠ .delete) {c : Change}
    (hc : t.diffFrom intent base.fields = some c) :
    (c.applyTo stored.edit).Coherent models ∧
      ((c.applyTo stored.edit).content = some t.bare ↔ t.Follows base.fields stored.fields) := by
  have hb := isBase_fields hbase.1 hbase.2 (congrArg Identity.layout hbi)
  have hs := isBase_fields hstored.1 hstored.2 (congrArg Identity.layout hsi)
  have hconforms := findsConforming_of_conforms ht.1 ht.2 intent base.fields hb c hc
  refine ⟨?_, ?_⟩
  · refine Change.keepsCoherence_of_conforms hconforms stored.edit (coherent_edit hstored.1) ?_
    exact (congrArg Identity.layout hsi).trans (layout_of_diffFrom hc).symm
  · have hbegun : stored.edit.Begun t.identity stored.fields := hsi ▸ begun_edit stored
    have hcontent := (patches_of_conforms ht.1 ht.2).content_iff ht.1 hb hs intent hintent hbegun
    rwa [hc] at hcontent

theorem exists_build_same {d : Draft} (hd : d.Coherent models) {t : Snapshot}
    (hplain : t.isPlain = true) (hcontent : d.content = some t.bare) (stamp : Nat) :
    ∃ s, d.build stamp = some s ∧ s.same t = true := by
  obtain ⟨s, hs, hbare⟩ := exists_build hd (isDeleted_of_content hcontent) stamp
  have hst : s.bare = t.bare := Option.some.inj (hbare.symm.trans hcontent)
  have hsplain : s.isPlain = true := by rw [← isPlain_bare, hst, isPlain_bare, hplain]
  exact ⟨s, hs, (same_iff_bare_eq hsplain hplain).2 hst⟩

/-- Comparing two versions of a record finds nothing exactly if they are the same, and what it finds
leads from the one to the other. -/
theorem patch_diff {a b : Snapshot} (ha : a.Conforms models) (hb : b.Conforms models)
    (haplain : a.isPlain = true) (hbplain : b.isPlain = true)
    (hidentity : a.identity = b.identity) :
    ∃ found, b.edit.diffAgainst .update a = .ok found ∧
      (found = none ↔ a.same b = true) ∧
      ∀ x ∈ found, ∃ p, a.edit.apply x = .ok p ∧
        ∀ stamp, ∃ s, p.build stamp = some s ∧ s.same b = true := by
  have hbase := isBase_fields ha haplain (congrArg Identity.layout hidentity)
  have hfound : b.edit.diffAgainst .update a = .ok (b.diffFrom .update a.fields) := by
    rw [← Draft.diffFrom_edit]
    exact Draft.diffAgainst_eq b.edit .update (congrArg Identity.key hidentity)
  refine ⟨b.diffFrom .update a.fields, hfound, ?_, ?_⟩
  · rw [(diffsExactly_of_conforms hb hbplain).update_eq_none_iff ha haplain hidentity,
      same_iff_bare_eq haplain hbplain]
  · intro x hx
    obtain ⟨hcoherent, hcontent⟩ := content_applyTo_edit_iff ⟨ha, haplain⟩ ⟨ha, haplain⟩
      ⟨hb, hbplain⟩ hidentity hidentity (by decide) hx
    have hself := follows_self hb hbase.conforms
    have hkey : a.edit.key = x.key :=
      congrArg Identity.key (hidentity.trans (of_diffFrom hx).1.symm)
    refine ⟨x.applyTo a.edit, ?_, exists_build_same hcoherent hbplain (hcontent.2 hself)⟩
    rw [Draft.apply, requireSameKey, if_pos hkey]
    rfl

/-- Two nodes with differently labelled nodes below them differ. -/
theorem not_same_of_relabelled :
    (Samples.family "leaf").same (Samples.family "twig") = false := by
  simp [Samples.family, Samples.tree, same, sameFields, sameValue, sameEntries, Datum.same]

/-- The node below a node is given another label, and the change carries it over. -/
theorem patch_diff_of_relabelled :
    ∃ x p, (Samples.family "twig").edit.diffAgainst .update (Samples.family "leaf") = .ok (some x) ∧
      (Samples.family "leaf").edit.apply x = .ok p ∧
      ∃ s, p.build 2 = some s ∧ s.same (Samples.family "twig") = true := by
  obtain ⟨found, hfound, hnone, hpatched⟩ := patch_diff (Samples.conforms_family "leaf")
    (Samples.conforms_family "twig") (Samples.isPlain_family "leaf") (Samples.isPlain_family "twig")
    rfl
  cases found with
  | none => simp [not_same_of_relabelled] at hnone
  | some x =>
      obtain ⟨p, hp, hbuild⟩ := hpatched x rfl
      exact ⟨x, p, hfound, hp, hbuild 2⟩

end Snapshot

end VersionedRecords
