import VersionedRecords.Proofs.Orders.Books

/-!
What the change that a commit tells does elsewhere.

The change leads from the order that the draft was begun over to what the draft builds.  A book that
it is sent to gets what the draft builds exactly if the order there follows.
-/

namespace VersionedRecords

namespace Orders.OrderBook

variable {k : Key} {d : Draft}

theorem DraftOf.isBase_baseValues (hd : DraftOf k d) :
    Snapshot.IsBase models order d.baseValues := by
  have hbase := hd.coherent.isBase_baseValues fun r hr => by
    obtain ⟨hidentity, hconforms⟩ := hd.coherent.of_reference hr
    exact isPlain_of_order hconforms (congrArg Identity.layout (hidentity.trans hd.identity_eq))
  exact hd.layout_eq ▸ hbase

/-- A draft that is not deleted builds an order. -/
theorem DraftOf.exists_build (hd : DraftOf k d) (hdeleted : d.isDeleted = false) (stamp : Nat) :
    ∃ m, d.build stamp = some m ∧ d.content = some m.bare ∧ m.identity = ⟨order, k⟩ ∧
      m.Conforms models ∧ m.isPlain = true := by
  obtain ⟨m, hm, hcontent⟩ := Draft.exists_build hd.coherent hdeleted stamp
  obtain ⟨hidentity, hconforms⟩ := hd.of_build hm
  exact ⟨m, hm, hcontent, hidentity, hconforms,
    isPlain_of_order hconforms (congrArg Identity.layout hidentity)⟩

theorem DraftOf.diff_eq (hd : DraftOf k d) {m : Snapshot} (hm : d.content = some m.bare) :
    d.diff = m.diffFrom d.ownIntent d.baseValues := by
  rw [d.diff_eq_diffFrom]
  exact Draft.diffFrom_build hd.coherent hm d.ownIntent (hd.layout_eq ▸ hd.isBase_baseValues)

theorem DraftOf.of_diff (hd : DraftOf k d) {x : Change} (hx : d.diff = some x) :
    x.identity = ⟨order, k⟩ ∧ x.intent = d.ownIntent := by
  rw [d.diff_eq_diffFrom] at hx
  obtain ⟨hidentity, hintent⟩ := Draft.of_diffFrom hx
  exact ⟨hidentity.trans hd.identity_eq, hintent⟩

/-- Whoever begins an order or deletes it has a change to tell. -/
theorem exists_diff (hown : d.ownIntent ≠ .update) : ∃ c, d.diff = some c := by
  cases hdiff : d.diff with
  | some c => exact ⟨c, rfl⟩
  | none =>
      rw [d.diff_eq_diffFrom, Draft.diffFrom_eq] at hdiff
      exact absurd (Accumulator.intent_of_gather_eq_none hdiff) hown

/-- The change that a commit tells can be applied to any order with the key. -/
theorem DraftOf.conforms_of_diff (hd : DraftOf k d) {x : Change} (hx : d.diff = some x) :
    x.intent = .delete ∨ x.Conforms models := by
  obtain ⟨-, hintent⟩ := hd.of_diff hx
  cases hdeleted : d.isDeleted with
  | true => exact .inl (hintent.trans (Draft.ownIntent_eq_delete_iff.2 hdeleted))
  | false =>
      obtain ⟨m, -, hcontent, hidentity, hconforms, hplain⟩ := hd.exists_build hdeleted 0
      have hlayout : m.layout = order := congrArg Identity.layout hidentity
      rw [hd.diff_eq hcontent] at hx
      exact .inr (Snapshot.findsConforming_of_conforms hconforms hplain d.ownIntent d.baseValues
        (hlayout ▸ hd.isBase_baseValues) x hx)

/-- A draft that tells no change builds what it was begun over. -/
theorem DraftOf.content_of_diff_eq_none (hd : DraftOf k d) (hnone : d.diff = none) :
    d.content = d.reference.map Snapshot.bare := by
  have hupdate : d.ownIntent = .update := by
    by_contra hown
    obtain ⟨c, hc⟩ := exists_diff hown
    exact Option.some_ne_none c (hc.symm.trans hnone)
  have hdeleted : d.isDeleted = false := by
    rw [← Bool.not_eq_true, ← Draft.ownIntent_eq_delete_iff, hupdate]
    decide
  have hgrounded := (Draft.coherent_iff.1 hd.coherent).1
  cases hreference : d.reference with
  | none => simp [Draft.ownIntent, hdeleted, hreference] at hupdate
  | some r =>
      rw [hreference] at hgrounded
      obtain ⟨hidentity, hconforms, -⟩ := hgrounded
      have hrk : r.identity = ⟨order, k⟩ := hidentity.trans hd.identity_eq
      obtain ⟨m, -, hcontent, hmk, hmconforms, hmplain⟩ := hd.exists_build hdeleted 0
      have hbase : d.baseValues = r.fields := by rw [Draft.baseValues, hreference]; rfl
      rw [hd.diff_eq hcontent, hupdate, hbase] at hnone
      have hplain := isPlain_of_order hconforms (congrArg Identity.layout hrk)
      have hsame := ((Snapshot.diffsExactly_of_conforms hmconforms hmplain).update_eq_none_iff
        hconforms hplain (hrk.trans hmk.symm)).1 hnone
      rw [hcontent, ← hsame]
      rfl

/-- What a draft builds agrees with what is stored wherever it agrees with what it was begun
over. -/
def Undisturbed (d : Draft) (stamp : Nat) (stored : List (Value Snapshot)) : Prop :=
  ∀ m ∈ d.build stamp, m.Follows d.baseValues stored

theorem DraftOf.undisturbed_congr (hd : DraftOf k d) (stamp : Nat) {b c : OrderBook} (hb : b.Sound)
    (hc : c.Sound) {j : Key} (hsame : b.content j = c.content j) :
    Undisturbed d stamp (b.values j) ↔ Undisturbed d stamp (c.values j) := by
  refine forall₂_congr fun m hm => ?_
  obtain ⟨hidentity, hconforms⟩ := hd.of_build hm
  have hlayout : m.layout = order := congrArg Identity.layout hidentity
  exact Snapshot.follows_congr hconforms (hlayout ▸ hd.isBase_baseValues.conforms)
    (hlayout ▸ (hb.isBase_values j).conforms) (hlayout ▸ (hc.isBase_values j).conforms)
    (values_bare_eq hsame)

/-- A book that gets the change of a draft holds what the draft builds exactly if the draft is
undisturbed there. -/
theorem DraftOf.content_applyTo_iff (hd : DraftOf k d) {r : OrderBook} (hr : r.Sound) {x : Change}
    (hx : d.diff = some x) (stamp : Nat) :
    (x.applyTo (r.edit k)).content = d.content ↔ Undisturbed d stamp (r.values k) := by
  obtain ⟨-, hintent⟩ := hd.of_diff hx
  cases hdeleted : d.isDeleted with
  | true =>
      have hdelete : x.intent = .delete :=
        hintent.trans (Draft.ownIntent_eq_delete_iff.2 hdeleted)
      have hcontent := Draft.content_eq_none_iff.2 hdeleted
      have hbuild : d.build stamp = none := by
        rw [← Option.map_eq_none_iff, hd.map_bare_build stamp, hcontent]
      simp [Undisturbed, hbuild, hcontent, Draft.content_applyTo_delete hdelete]
  | false =>
      obtain ⟨m, hm, hcontent, hidentity, hconforms, hplain⟩ := hd.exists_build hdeleted stamp
      have hlayout : m.layout = order := congrArg Identity.layout hidentity
      have hown : d.ownIntent ≠ .delete := by
        rw [Ne, Draft.ownIntent_eq_delete_iff, hdeleted]
        decide
      have hiff := (Snapshot.patches_of_conforms hconforms hplain).content_iff hconforms
        (hlayout ▸ hd.isBase_baseValues) (hlayout ▸ hr.isBase_values k) d.ownIntent hown
        (hidentity ▸ hr.begun_edit k)
      rw [← hd.diff_eq hcontent, hx, ← hcontent] at hiff
      simpa [Undisturbed, hm] using hiff

end Orders.OrderBook

end VersionedRecords
