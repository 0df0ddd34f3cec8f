import VersionedRecords.Proofs.Orders.Batches

/-!
Catching up.

A book that has fallen behind another, or has gone its own way, is brought up to it by the changes
that comparing the two finds.  They are a table: one change for each order that differs and none for
the others.  So the order in which they arrive does not matter, and there are none of them exactly
if the books are the same.
-/

namespace VersionedRecords.Orders.OrderBook

variable {a b base next : OrderBook} {k : Key} {c : Change}

/-- What comparing two books finds for an order takes every book from the one version of the order
to the other. -/
theorem Finds.carries (h : Finds k base c next) :
    Carries (base.content k) c (next.content k) := by
  have hnothing : Accumulator.Turns models order.kinds
      ((base.values k).map Snapshot.bareValue) (order.kinds.map Pending.zero)
      ((base.values k).map Snapshot.bareValue) := Accumulator.turns_zeros _ _
  have hbuild : Accumulator.build (.ofChange c) = some c :=
    Accumulator.build_ofChange (h.turns hnothing).1.canonical
  have hstands : Stands k base (Journal.merged none c) next :=
    Stands.merged (show Stands k base none base from rfl) h
  have hmerged : Merged k base (.ofChange c) next := hstands
  exact hmerged.carries h.sound_next hbuild

/-- The changes that comparing two books finds are a table by the keys of the orders. -/
theorem Sound.tabulates_diff (ha : a.Sound) (hb : b.Sound) :
    ∃ told, a.diff b = .ok told ∧ Keyed.Tabulates Change.key
      (fun k => Snapshot.recordChange? (b.get? k) (a.get? k)) told := by
  obtain ⟨told, hdiff, hfound⟩ := ha.diff hb
  exact ⟨told, hdiff, .of_filter_key hfound⟩

/-- However the changes of a table arrive, they lead from each order as it was to the order as it
is. -/
theorem Sound.leads_of_tabulates (ha : a.Sound) (hb : b.Sound) {told : List Change}
    (htold : Keyed.Tabulates Change.key
      (fun k => Snapshot.recordChange? (b.get? k) (a.get? k)) told) (k : Key) :
    Leads (b.content k) (changesOf k told) (a.content k) := by
  have hfilter : changesOf k told = (Snapshot.recordChange? (b.get? k) (a.get? k)).toList :=
    htold.filter_key k
  rw [hfilter]
  cases hchange : Snapshot.recordChange? (b.get? k) (a.get? k) with
  | none => exact (recordChange?_eq_none_iff hb ha).1 hchange
  | some c => exact ⟨a.content k, Finds.carries ⟨hb, ha, hchange⟩, rfl⟩

/-- Comparing two books never fails and finds one change for each order at most.  The book that was
compared with becomes the other by the changes, in whatever order they are applied, and there are
none exactly if the books are the same.  Every order lies under its own key. -/
theorem catches_up (ha : a.Reachable) (hb : b.Reachable) :
    (∃ told, a.diff b = .ok told ∧ (told.map Change.key).Nodup ∧
      (∀ deliveries : List (Nat × Change), (deliveries.map Prod.snd).Perm told →
        ∃ final, b.receive deliveries = .ok final ∧ final.same a = true) ∧
      (told = [] ↔ a.same b = true)) ∧
    ∀ e ∈ a.orders, e.2.key = e.1 := by
  have hasound := ha.sound
  have hbsound := hb.sound
  constructor
  · obtain ⟨told, hdiff, htable⟩ := hasound.tabulates_diff hbsound
    refine ⟨told, hdiff, htable.nodup, ?_, ?_⟩
    · intro deliveries hperm
      obtain ⟨final, hreceive, hfinal, hcontent⟩ :=
        hbsound.receive_of_leads (hasound.leads_of_tabulates hbsound (htable.perm hperm))
      exact ⟨final, hreceive, (same_iff_content_eq hfinal hasound).2 hcontent⟩
    · rw [htable.eq_nil_iff, same_iff_content_eq hasound hbsound]
      apply forall_congr'
      intro k
      rw [recordChange?_eq_none_iff hbsound hasound, eq_comm]
  · intro e he
    have hidentity := (hasound.orders e he).1
    exact congrArg Identity.key hidentity

/-- The book with one order, of which nothing is known but its key. -/
def begun : OrderBook := (empty.commit 0 (.new order (.int 1))).1

/-- An order that holds zeros alone is created nevertheless. -/
theorem catches_up_from_nothing :
    ∃ told, begun.diff empty = .ok told ∧ told ≠ [] ∧
      ∃ final, empty.receive (told.map fun c => (1, c)) = .ok final ∧
        final.same begun = true := by
  have hbegun : begun.Reachable := .commit .empty (.new order (.int 1)) rfl 0
  obtain ⟨⟨told, hdiff, -, hcatches, hnil⟩, -⟩ := catches_up hbegun .empty
  have hdiffers : ¬ begun.same empty = true := by
    rw [same_iff_content_eq hbegun.sound Reachable.empty.sound]
    intro hsame
    obtain ⟨c, hc⟩ := @exists_diff (.new order (.int 1)) (by decide)
    have hstored := (Reachable.empty.sound.store_build (draftOf_new (.int 1)) 0).2 (.int 1)
    rw [begun, commit_of_told hc] at hsame
    have hnone := hstored.symm.trans (hsame (.int 1))
    rw [if_pos rfl] at hnone
    cases hnone
  refine ⟨told, hdiff, mt hnil.1 hdiffers, ?_⟩
  apply hcatches
  simp [Function.comp_def]

end VersionedRecords.Orders.OrderBook
