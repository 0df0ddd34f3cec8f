import VersionedRecords.Proofs.Orders.Books
import VersionedRecords.Proofs.Redelivery

/-!
Redelivery is harmless.

A change may reach a draft or a book twice.  The second time the order is edited anew from what was
stored the first time, and that has the content which the change leads to.
-/

namespace VersionedRecords.Orders

namespace OrderBook

variable {b : OrderBook}

/-- What the book holds for an order after a change of it is not changed by the same change. -/
theorem Sound.content_applyTo_again (hb : b.Sound) {x : Change} (hx : x.Conforms models)
    (horder : x.layout = order) (stamp : Nat) :
    (x.applyTo ((b.store x.key ((x.applyTo (b.edit x.key)).build stamp)).edit x.key)).content =
      (x.applyTo (b.edit x.key)).content := by
  have hdraft := hb.draftOf_applyTo horder (.inr hx)
  obtain ⟨hstored, hcontents⟩ := hb.store_build hdraft stamp
  have hheld : (b.store x.key ((x.applyTo (b.edit x.key)).build stamp)).content x.key =
      (x.applyTo (b.edit x.key)).content := by
    rw [hcontents, if_pos rfl]
  by_cases hdelete : x.intent = .delete
  · rw [Draft.content_applyTo_delete hdelete, Draft.content_applyTo_delete hdelete]
  · have hedit := hb.draftOf_edit x.key
    have hedit' := hstored.draftOf_edit x.key
    generalize b.store x.key ((x.applyTo (b.edit x.key)).build stamp) = b' at *
    obtain ⟨s, hs⟩ : ∃ s, b'.content x.key = some s := by
      rw [hheld, Draft.content_applyTo_of_ne_delete hdelete]
      exact ⟨_, rfl⟩
    -- something is stored, so the second time a draft over it is edited
    have hcontent : (b'.edit x.key).content = b'.content x.key := by
      obtain ⟨t, ht, -⟩ := Option.map_eq_some_iff.1 hs
      rw [OrderBook.content, OrderBook.edit, ht]
      exact Draft.content_edit t
    rw [← hheld, ← hcontent]
    exact Change.content_applyTo_of_content hx hedit.coherent hedit'.coherent
      (horder.trans hedit.layout_eq.symm) (horder.trans hedit'.layout_eq.symm)
      (hcontent.trans hheld)

/-- A book that a change has been applied to holds the same when the change is applied again. -/
theorem Sound.apply_twice (hb : b.Sound) {x : Change} (hx : x.Conforms models)
    (horder : x.layout = order) (stamp stamp' : Nat) :
    ∃ once twice, b.apply stamp x = .ok once ∧ once.apply stamp' x = .ok twice ∧
      twice.same once = true ∧ ∀ k, twice.content k = once.content k := by
  have hagain := hb.content_applyTo_again hx horder stamp
  obtain ⟨hstored, hcontents⟩ := hb.store_build (hb.draftOf_applyTo horder (.inr hx)) stamp
  obtain ⟨hstored', hcontents'⟩ :=
    hstored.store_build (hstored.draftOf_applyTo horder (.inr hx)) stamp'
  refine ⟨_, _, hb.apply_eq stamp x, hstored.apply_eq stamp' x, ?_⟩
  rw [same_iff_content_eq hstored' hstored, and_self]
  intro k
  rw [hcontents']
  split
  · next hk => rw [hagain, hcontents, if_pos hk]
  · rfl

end OrderBook

/-- Applying a change to a draft or to a book twice in a row comes to the same as applying it
once, whatever the change says and however often it says it. -/
theorem apply_again {models : String → Layout} {d : Draft} (hd : d.Reachable models) {c : Change}
    (hc : c.Conforms models) (hidentity : c.identity = d.identity) {b : OrderBook}
    (hb : b.Reachable) {x : Change} (hx : x.Conforms Orders.models) (horder : x.layout = order)
    (stamp stamp' : Nat) :
    (∃ once twice, d.apply c = .ok once ∧ once.apply c = .ok twice ∧
      twice.lastIntent = once.lastIntent ∧
      (twice.build stamp').map Snapshot.bare = (once.build stamp).map Snapshot.bare) ∧
    ∃ once twice, b.apply stamp x = .ok once ∧ once.apply stamp' x = .ok twice ∧
      twice.same once = true ∧ ∀ k, twice.content k = once.content k :=
  ⟨hd.coherent.apply_twice hc hidentity stamp stamp',
    hb.sound.apply_twice hx horder stamp stamp'⟩

/-- A change that takes away what lies below a node and labels it all the same. -/
def contradictory : Change :=
  ⟨Samples.node, .update, .int 1, [none, some (.modelMap
    [⟨.delete, .int 7, ⟨Samples.node, .delete, .int 2, [none, none]⟩⟩,
      ⟨.update, .int 7, ⟨Samples.node, .update, .int 2,
        [some (.scalar (.key (.text "twig"))), none]⟩⟩])]⟩

theorem conforms_contradictory : contradictory.Conforms Samples.nodes := by
  have hdelete : Change.Conforms Samples.nodes ⟨Samples.node, .delete, .int 2, [none, none]⟩ :=
    Change.conforms_iff.2 (.cons (by simp) (.cons (by simp) .nil))
  have hlabel : Change.Conforms Samples.nodes ⟨Samples.node, .update, .int 2,
      [some (.scalar (.key (.text "twig"))), none]⟩ := by
    refine Change.conforms_iff.2 (.cons ?_ (.cons (by simp) .nil))
    rintro _ ⟨⟩
    trivial
  refine Change.conforms_iff.2 (.cons (by simp) (.cons ?_ .nil))
  rintro _ ⟨⟩
  refine Change.entriesConform_iff.2 ?_
  simp only [List.forall_mem_cons]
  exact ⟨⟨rfl, hdelete⟩, ⟨rfl, hlabel⟩, by simp⟩

/-- The contradictory change of a node and the creation of an order, each applied twice. -/
theorem apply_again_of_contradictory :
    (∃ once twice, (Samples.family "leaf").edit.apply contradictory = .ok once ∧
      once.apply contradictory = .ok twice ∧
      (twice.build 2).map Snapshot.bare = (once.build 1).map Snapshot.bare) ∧
    ∃ once twice,
      OrderBook.empty.apply 1 ⟨order, .add, .int 1, List.replicate 6 none⟩ = .ok once ∧
      once.apply 2 ⟨order, .add, .int 1, List.replicate 6 none⟩ = .ok twice ∧
      twice.same once = true := by
  have horder : Change.Conforms models ⟨order, .add, .int 1, List.replicate 6 none⟩ := by
    simp [Change.Conforms, order, Layout.kinds, List.replicate, Change.FieldsConform]
  obtain ⟨⟨once, twice, honce, htwice, -, hbuild⟩, once', twice', honce', htwice', hsame, -⟩ :=
    apply_again (.edit (Samples.conforms_family "leaf")) conforms_contradictory rfl .empty horder
      rfl 1 2
  exact ⟨⟨once, twice, honce, htwice, hbuild⟩, once', twice', honce', htwice', hsame⟩

end VersionedRecords.Orders
