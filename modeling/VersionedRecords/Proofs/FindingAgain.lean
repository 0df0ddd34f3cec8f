import VersionedRecords.Proofs.Describing

/-!
Finding again what was applied.

A draft compared with what it was begun over tells what has become of it.  A draft that a change was
applied to was never edited: fields were replaced as a whole, drafts of sub-records were begun anew,
entries were left behind as deleted.  It tells the change all the same, since only contents count.
-/

namespace VersionedRecords

namespace Draft

variable {models : String → Layout}

/-- Over a version of the record, only a deletion is not told as an update. -/
theorem diff_applyTo {c : Change} {d : Draft} {r : Snapshot} (hr : d.reference = some r) :
    (c.applyTo d).diff =
      (c.applyTo d).diffFrom (if c.intent = .delete then .delete else .update) r.fields := by
  have hreference : (c.applyTo d).reference = some r := (Change.reference_applyTo c d).trans hr
  have hdeleted := Accumulator.isDeleted_applyTo c d
  rw [diff_eq_diffFrom, baseValues, hreference, ownIntent, hreference]
  simp [hdeleted]

/-- A deleted draft differs from its base as the record of zeros does. -/
theorem diffFrom_applyTo_delete {c : Change} (hintent : c.intent = .delete) (d : Draft)
    (origin : Origin) (intent : Intent) {base : List (Value Snapshot)}
    (hbase : Snapshot.IsBase models d.layout base) :
    (c.applyTo d).diffFrom intent base =
      (Snapshot.empty d.layout d.key origin).diffFrom intent base := by
  have hnew : (c.applyTo d).diffFrom intent base = (new d.layout d.key).diffFrom intent base := by
    rw [Change.applyTo_eq, if_pos hintent, diffFrom_eq, diffFrom_eq]
    rfl
  have hcontent : (new d.layout d.key).content =
      some (Snapshot.empty d.layout d.key origin).bare := by
    rw [content_of_begun (begun_new d.layout d.key), Snapshot.bare_eq]
    rfl
  rw [hnew]
  exact diffFrom_build (coherent_new d.layout d.key) hcontent intent hbase

end Draft

namespace Snapshot

open Draft

variable {models : String → Layout}

/-- An update that was applied to the version it leads from is found again. -/
theorem diff_applyTo_update {a b : Snapshot} (ha : a.Conforms models ∧ a.isPlain = true)
    (hb : b.Conforms models ∧ b.isPlain = true) (hidentity : a.identity = b.identity) {c : Change}
    (hc : b.diffFrom .update a.fields = some c) : (c.applyTo a.edit).diff = some c := by
  obtain ⟨hci, hintent⟩ := of_diffFrom hc
  obtain ⟨hcoherent, hcontent⟩ :=
    content_applyTo_edit_iff ha ha hb hidentity hidentity (by decide) hc
  have hbase := isBase_fields ha.1 ha.2 (congrArg Identity.layout hidentity)
  have hlayout : (c.applyTo a.edit).layout = b.layout :=
    congrArg Identity.layout ((Change.identity_applyTo c a.edit).trans hidentity)
  have hb : (c.applyTo a.edit).content = some b.bare :=
    hcontent.2 (follows_self hb.1 hbase.conforms)
  rw [diff_applyTo (r := a) rfl, hintent, if_neg (by decide), ← hc]
  exact diffFrom_build hcoherent hb .update (hlayout ▸ hbase)

/-- A teardown that was applied to its version is found again. -/
theorem diff_applyTo_teardown {a : Snapshot} (ha : a.Conforms models) (hplain : a.isPlain = true)
    {c : Change} (hc : a.teardown = some c) : (c.applyTo a.edit).diff = some c := by
  have hintent := (of_teardown hc).2
  rw [diff_applyTo (r := a) rfl, if_pos hintent, ← hc, teardown_eq_diffFrom ha]
  exact diffFrom_applyTo_delete hintent a.edit .zero .delete (isBase_fields ha hplain rfl)

/-- A creation that a draft begins with is found again. -/
theorem diff_toDraft_add {b : Snapshot} (hb : b.Conforms models) (hplain : b.isPlain = true)
    {c : Change} (hc : b.diffFrom .add b.layout.zeros = some c) : c.toDraft.diff = some c := by
  obtain ⟨hci, hintent⟩ := of_diffFrom hc
  have hzeros := @isBase_zeros models b.layout
  have hlayout : c.toDraft.layout = b.layout :=
    congrArg Identity.layout ((Change.identity_toDraft c).trans hci)
  have hreference : c.toDraft.reference = none := Change.reference_applyTo c _
  have hdeleted : c.toDraft.isDeleted = false := by
    rw [← Bool.not_eq_true, Change.toDraft, Accumulator.isDeleted_applyTo, hintent]
    decide
  obtain ⟨hcoherent, hcontent⟩ := content_toDraft hb hplain (by decide) hc
  rw [diff_eq_diffFrom, ownIntent, hdeleted, baseValues, hreference, ← hc, hlayout]
  exact diffFrom_build hcoherent hcontent .add (hlayout ▸ hzeros)

/-- A draft that a change was applied to tells the change again when it is compared with what it was
begun over: the update between two versions, the teardown of a version and its creation. -/
theorem diff_apply {a b : Snapshot} (ha : a.Conforms models) (hb : b.Conforms models)
    (haplain : a.isPlain = true) (hbplain : b.isPlain = true)
    (hidentity : a.identity = b.identity) :
    (∃ found, b.edit.diffAgainst .update a = .ok found ∧
      ∀ c ∈ found, ∃ d, a.edit.apply c = .ok d ∧ d.diff = some c) ∧
    (∃ c d, a.toChange .delete = some c ∧ a.edit.apply c = .ok d ∧ d.diff = some c) ∧
    ∃ c, b.toChange .add = some c ∧ c.toDraft.diff = some c := by
  have happly (c : Change) (hc : c.identity = a.identity) :
      a.edit.apply c = .ok (c.applyTo a.edit) := by
    have hkey : a.edit.key = c.key := (congrArg Identity.key hc).symm
    rw [Draft.apply_eq, if_pos hkey]
  refine ⟨⟨b.diffFrom .update a.fields, ?_, fun c hc => ?_⟩, ?_, ?_⟩
  · rw [← Draft.diffFrom_edit]
    exact Draft.diffAgainst_eq b.edit .update (congrArg Identity.key hidentity)
  · exact ⟨c.applyTo a.edit, happly c ((of_diffFrom hc).1.trans hidentity.symm),
      diff_applyTo_update ⟨ha, haplain⟩ ⟨hb, hbplain⟩ hidentity hc⟩
  · obtain ⟨c, hc, -⟩ := exists_teardown ha
    exact ⟨c, c.applyTo a.edit, hc, happly c (of_teardown hc).1,
      diff_applyTo_teardown ha haplain hc⟩
  · obtain ⟨c, hc⟩ := Option.isSome_iff_exists.1 (diffFrom_add_isSome b.layout.zeros b)
    exact ⟨c, hc, diff_toDraft_add hb hbplain hc⟩

/-- The node below a node is given another label. -/
theorem diff_apply_of_relabelled :
    ∃ c d, (Samples.family "twig").edit.diffAgainst .update (Samples.family "leaf") = .ok (some c) ∧
      (Samples.family "leaf").edit.apply c = .ok d ∧ d.diff = some c := by
  have hleaf := Samples.conforms_family "leaf"
  have htwig := Samples.conforms_family "twig"
  obtain ⟨⟨found, hfound, hagain⟩, -⟩ := diff_apply hleaf htwig (Samples.isPlain_family "leaf")
    (Samples.isPlain_family "twig") rfl
  have hdiffer : (Samples.family "leaf").bare ≠ (Samples.family "twig").bare := by
    simp [Samples.family, Samples.tree, bare, bareFields, bareValue, bareEntries]
  have hsome : (Samples.family "twig").diffFrom .update (Samples.family "leaf").fields ≠ none :=
    fun hnone => hdiffer (((diffsExactly_of_conforms htwig (Samples.isPlain_family "twig"))
      |>.update_eq_none_iff hleaf (Samples.isPlain_family "leaf") rfl).1 hnone)
  have hdiff := Draft.diffAgainst_eq (Samples.family "twig").edit .update
    (r := Samples.family "leaf") rfl
  rw [hfound, Draft.diffFrom_edit, Except.ok.injEq] at hdiff
  obtain ⟨c, hc⟩ := Option.ne_none_iff_exists'.1 (hdiff ▸ hsome)
  obtain ⟨d, hd, htold⟩ := hagain c hc
  exact ⟨c, d, by rw [hfound, hc], hd, htold⟩

end Snapshot

end VersionedRecords
