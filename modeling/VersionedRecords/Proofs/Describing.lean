import VersionedRecords.Proofs.Accumulating
import VersionedRecords.Proofs.Suiting

/-!
Records described as changes.

A version described as a creation or as an update says all there is to say about it, so the draft
that begins with the description gives the version back.  Its teardown takes every field to zero:
applied as it is it deletes the record, and relabelled as an update it empties the record.
-/

namespace VersionedRecords

namespace Accumulator

variable {models : String → Layout}

/-- A well-formed change keeps what it carries if nothing but its intent is overwritten. -/
theorem build_setIntent {c : Change} (hc : c.WellFormed models) (intent : Intent) :
    ((ofChange c).setIntent intent).build =
      if intent = .update ∧ c.fields.any Option.isSome = false then none
      else some { c with intent := intent } := by
  have hfields := settleFields_ofChange hc
  obtain ⟨layout, old, key, fields⟩ := c
  rw [ofChange] at hfields ⊢
  rw [setIntent, build, hfields]
  rfl

end Accumulator

namespace Snapshot

open Draft

variable {models : String → Layout}

/-- The draft that begins with what leads from zeros to a record has the content of the record. -/
theorem content_toDraft {m : Snapshot} (hm : m.Conforms models) (hplain : m.isPlain = true)
    {intent : Intent} (hintent : intent ≠ .delete) {c : Change}
    (hc : m.diffFrom intent m.layout.zeros = some c) :
    c.toDraft.Coherent models ∧ c.toDraft.content = some m.bare := by
  have hzeros := @isBase_zeros models m.layout
  have hconforms := findsConforming_of_conforms hm hplain intent m.layout.zeros hzeros c hc
  refine ⟨Change.keepsCoherence_of_conforms hconforms _ (coherent_new c.layout c.key) rfl, ?_⟩
  exact ((patches_of_conforms hm hplain).content_toDraft_iff hm hzeros hintent hc).2
    (follows_self hm hzeros.conforms)

/-- The update from zeros is none exactly for a record of zeros. -/
theorem diffFrom_zeros_eq_none_iff {m : Snapshot} (hm : m.Conforms models)
    (hplain : m.isPlain = true) (origin : Origin) :
    m.diffFrom .update m.layout.zeros = none ↔
      m.same (empty m.layout m.key origin) = true := by
  have hzero := @conforms_empty models m.layout m.key origin
  have hzeroPlain := isPlain_empty m.layout m.key origin
  have hexact := (diffsExactly_of_conforms hm hplain).update_eq_none_iff hzero hzeroPlain rfl
  rw [same_iff_bare_eq hplain hzeroPlain]
  exact hexact.trans eq_comm

/-- The teardown relabelled as an update is the update to the record of zeros. -/
theorem build_setIntent_teardown {m : Snapshot} (hm : m.Conforms models)
    (hplain : m.isPlain = true) {c : Change} (hc : m.teardown = some c) (origin : Origin) :
    ((Accumulator.ofChange c).setIntent .update).build =
      (empty m.layout m.key origin).diffFrom .update m.fields := by
  have hzero (origin : Origin) := @conforms_empty models m.layout m.key origin
  have hbase : IsBase models m.layout m.fields := isBase_fields hm hplain rfl
  rw [teardown_eq_diffFrom hm] at hc
  have hwf := wellFormed_of_diffFrom (hzero .zero) (isPlain_empty m.layout m.key .zero) hbase hc
  rw [diffFrom_eq_ite (hzero .zero) hbase] at hc
  obtain ⟨-, hc⟩ := Option.ite_none_left_eq_some.1 hc
  cases hc
  rw [Accumulator.build_setIntent hwf, diffFrom_eq_ite (hzero origin) hbase]
  rfl

/-- The descriptions of a version are complete: its creation and its update from zeros give it back,
its teardown deletes it, and relabelled as an update the teardown leaves the record of zeros. -/
theorem toChange_complete {m : Snapshot} (hm : m.Conforms models) (hplain : m.isPlain = true)
    (origin : Origin) (stamp : Nat) :
    (∃ c, m.toChange .add = some c ∧
      ∃ s, c.toDraft.build stamp = some s ∧ s.same m = true) ∧
    ((m.toChange .update = none ↔ m.same (empty m.layout m.key origin) = true) ∧
      ∀ c ∈ m.toChange .update, ∃ s, c.toDraft.build stamp = some s ∧ s.same m = true) ∧
    ∃ c, m.toChange .delete = some c ∧
      (∃ d, m.edit.apply c = .ok d ∧ d.build stamp = none) ∧
      (((Accumulator.ofChange c).setIntent .update).build = none ↔
        m.same (empty m.layout m.key origin) = true) ∧
      ∀ x ∈ ((Accumulator.ofChange c).setIntent .update).build,
        ∃ d, m.edit.apply x = .ok d ∧
          ∃ s, d.build stamp = some s ∧ s.same (empty m.layout m.key origin) = true := by
  refine ⟨?_, ⟨diffFrom_zeros_eq_none_iff hm hplain origin, ?_⟩, ?_⟩
  · obtain ⟨c, hc⟩ := Option.isSome_iff_exists.1 (diffFrom_add_isSome m.layout.zeros m)
    obtain ⟨hcoherent, hcontent⟩ := content_toDraft hm hplain (by decide) hc
    exact ⟨c, hc, exists_build_same hcoherent hplain hcontent stamp⟩
  · intro c hc
    obtain ⟨hcoherent, hcontent⟩ := content_toDraft hm hplain (by decide) hc
    exact exists_build_same hcoherent hplain hcontent stamp
  · obtain ⟨c, hc, -⟩ := exists_teardown hm
    obtain ⟨hidentity, hintent⟩ := of_teardown hc
    have hzero := @conforms_empty models m.layout m.key origin
    have hzeroPlain := isPlain_empty m.layout m.key origin
    have hbase : IsBase models m.layout m.fields := isBase_fields hm hplain rfl
    have hrelabelled : ((Accumulator.ofChange c).setIntent .update).build =
        (empty m.layout m.key origin).diffFrom .update m.fields :=
      build_setIntent_teardown hm hplain hc origin
    have hnone := (diffsExactly_of_conforms hzero hzeroPlain).update_eq_none_iff hm hplain rfl
    have hkey : m.edit.key = c.key := (congrArg Identity.key hidentity).symm
    refine ⟨c, hc, ⟨c.applyTo m.edit, ?_, ?_⟩, ?_, ?_⟩
    · rw [Draft.apply_eq, if_pos hkey]
    · rw [Draft.build, buildAt_eq, if_pos ((Accumulator.isDeleted_applyTo c m.edit).2 hintent)]
    · rw [hrelabelled, hnone, same_iff_bare_eq hplain hzeroPlain]
    · intro x hx
      rw [hrelabelled] at hx
      obtain ⟨hcoherent, hcontent⟩ := content_applyTo_edit_iff ⟨hm, hplain⟩ ⟨hm, hplain⟩
        ⟨hzero, hzeroPlain⟩ rfl rfl (by decide) hx
      have hkey : m.edit.key = x.key := congrArg Identity.key (of_diffFrom hx).1.symm
      refine ⟨x.applyTo m.edit, by rw [Draft.apply_eq, if_pos hkey], ?_⟩
      exact exists_build_same hcoherent hzeroPlain
        (hcontent.2 (follows_self hzero hbase.conforms)) stamp

/-- A node with a blank node below it: the teardown names the blank one too, and relabelled as an
update it leaves a node with nothing below. -/
theorem toChange_complete_of_family :
    ∃ c x d s, (Samples.family "").toChange .delete = some c ∧
      ((Accumulator.ofChange c).setIntent .update).build = some x ∧
      (Samples.family "").edit.apply x = .ok d ∧ d.build 2 = some s ∧
      s.same (empty Samples.node (.int 1) .zero) = true := by
  obtain ⟨-, -, c, hc, -, hnone, hsome⟩ := toChange_complete (Samples.conforms_family "")
    (Samples.isPlain_family "") .zero 2
  have hdiffer : (Samples.family "").same (empty Samples.node (.int 1) .zero) ≠ true := by
    simp [Samples.family, Samples.tree, Samples.node, empty, Layout.zeros, Layout.kinds, Value.zero,
      same, sameFields, sameValue, sameEntries]
  cases hx : ((Accumulator.ofChange c).setIntent .update).build with
  | none => exact absurd (hnone.1 hx) hdiffer
  | some x =>
      obtain ⟨d, hd, s, hs, hsame⟩ := hsome x hx
      exact ⟨c, x, d, s, hc, hx, hd, hs, hsame⟩

end Snapshot

end VersionedRecords
