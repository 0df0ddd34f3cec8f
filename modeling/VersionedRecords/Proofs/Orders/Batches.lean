import VersionedRecords.Orders.Journal
import VersionedRecords.Proofs.Exactness
import VersionedRecords.Proofs.MergingFound
import VersionedRecords.Proofs.Orders.Convergence

/-!
Batches.

What leads from one version of a book to the next, and on, is recorded in a journal, and the journal
is drained now and then.  Under each key the changes of a history form a chain, and what a journal
has pending under a key leads from the order as it was when the journal was last drained to the
order as it is now.  So the batches form chains again, of one change for each order at most.
-/

namespace VersionedRecords

namespace Accumulator

theorem key_ofChange (c : Change) : (ofChange c).key = c.key := by
  obtain ⟨layout, intent, key, fields⟩ := c
  rw [ofChange]

end Accumulator

namespace Orders

/-- The changes that comparing each book with the one before it finds. -/
def OrderBook.history : OrderBook → List OrderBook → Except IdentityMismatch (List Change)
  | _, [] => .ok []
  | b, next :: rest => do
    let told ← next.diff b
    let later ← next.history rest
    return told ++ later

/-- The batches of a journal that is drained after each piece of what is recorded. -/
def Journal.batches :
    Journal → List (List Change) → Except IdentityMismatch (List (List Change))
  | _, [] => .ok []
  | j, piece :: pieces => do
    let j' ← piece.foldlM record j
    let later ← j'.drain.2.batches pieces
    return j'.drain.1 :: later

open OrderBook

namespace Journal

/-! ### Journals -/

/-- The keys ascend, and what is pending under each of them is of that key. -/
structure Sound (j : Journal) : Prop where
  ascending : Keyed.Ascending j.pending
  key_eq : ∀ e ∈ j.pending, e.2.key = e.1

/-- What is pending for an order once a change of it is recorded. -/
def merged (a : Option Accumulator) (c : Change) : Option Accumulator :=
  some (a.elim (.ofChange c) (Accumulator.absorb c))

variable {j : Journal}

theorem sound_empty : empty.Sound := ⟨List.Pairwise.nil, by simp [empty]⟩

theorem Sound.insert (hj : j.Sound) {a : Accumulator} {k : Key} (ha : a.key = k) :
    Sound ⟨Keyed.insert k a j.pending⟩ := by
  refine ⟨Keyed.ascending_insert hj.ascending k a, fun e he => ?_⟩
  rcases Keyed.mem_insert he with rfl | he
  · exact ha
  · exact hj.key_eq e he

/-- Recording never fails and has to do with the order of the change alone. -/
theorem Sound.record (hj : j.Sound) (c : Change) :
    ∃ j', j.record c = .ok j' ∧ j'.Sound ∧
      ∀ k, Keyed.find? k j'.pending =
        if c.key = k then merged (Keyed.find? k j.pending) c else Keyed.find? k j.pending := by
  have hfind : ∀ k a, merged (Keyed.find? c.key j.pending) c = some a →
      Keyed.find? k (Keyed.insert c.key a j.pending) =
        if c.key = k then merged (Keyed.find? k j.pending) c else Keyed.find? k j.pending := by
    intro k a ha
    rw [Keyed.find?_insert]
    split
    · next hk => rw [← hk, ha]
    · rfl
  unfold Journal.record
  cases hpending : Keyed.find? c.key j.pending with
  | none =>
      exact ⟨_, rfl, hj.insert (Accumulator.key_ofChange c),
        fun k => hfind k _ (by rw [hpending]; rfl)⟩
  | some a =>
      have hkey : a.key = c.key :=
        hj.key_eq (c.key, a) ((Keyed.mem_iff_find? hj.ascending c.key a).2 hpending)
      refine ⟨⟨Keyed.insert c.key (Accumulator.absorb c a) j.pending⟩, ?_, hj.insert ?_,
        fun k => hfind k _ (by rw [hpending]; rfl)⟩
      · simp only [Accumulator.add, requireSameKey, if_pos hkey]
        rfl
      · rw [Accumulator.absorb_eq]
        exact hkey

/-- What is pending for an order after a list of changes is made by the changes of that order. -/
theorem Sound.recordAll (hj : j.Sound) (cs : List Change) :
    ∃ j', cs.foldlM Journal.record j = .ok j' ∧ j'.Sound ∧
      ∀ k, Keyed.find? k j'.pending = (changesOf k cs).foldl merged (Keyed.find? k j.pending) := by
  induction cs generalizing j with
  | nil => exact ⟨j, rfl, hj, fun _ => rfl⟩
  | cons c cs ih =>
      obtain ⟨j', hrecord, hj', hfind⟩ := hj.record c
      obtain ⟨j'', hrest, hj'', hlater⟩ := ih hj'
      refine ⟨j'', ?_, hj'', fun k => ?_⟩
      · rw [List.foldlM_cons, hrecord]
        exact hrest
      · rw [hlater, hfind]
        split
        · next hk => rw [changesOf_cons_self hk, List.foldl_cons]
        · next hk => rw [changesOf_cons_of_ne hk]

/-- A batch holds what is pending, one change for each order at most. -/
theorem Sound.tabulates_drain (hj : j.Sound) :
    Keyed.Tabulates Change.key (fun k => (Keyed.find? k j.pending).bind Accumulator.build)
      j.drain.1 := by
  have htable : Keyed.Tabulates Change.key _ j.drain.1 :=
    (Keyed.tabulates_of_ascending hj.ascending).filterMap fun e he c h => by
      rw [Accumulator.eq_of_build h]
      exact hj.key_eq e he
  simp only [Option.bind_map, Function.comp_def] at htable
  exact htable

end Journal

namespace OrderBook

variable {b b' r start base next : OrderBook} {k : Key} {c : Change} {a : Accumulator}

/-! ### What comparing two books finds -/

/-- The change is what comparing two books finds for an order. -/
structure Finds (k : Key) (base : OrderBook) (c : Change) (next : OrderBook) : Prop where
  sound_base : base.Sound
  sound_next : next.Sound
  found : Snapshot.recordChange? (base.get? k) (next.get? k) = some c

/-- The order under a key, or the order of zeros if there is none. -/
def version (b : OrderBook) (k : Key) : Snapshot := .orEmpty ⟨order, k⟩ (b.get? k)

theorem fields_version (b : OrderBook) (k : Key) : (b.version k).fields = b.values k := by
  unfold version values
  cases b.get? k <;> rfl

theorem Sound.version (hb : b.Sound) (k : Key) :
    (b.version k).identity = ⟨order, k⟩ ∧ (b.version k).Conforms models ∧
      (b.version k).isPlain = true :=
  ⟨Snapshot.identity_orEmpty fun _ ht => (hb.of_get? ht).1,
    Snapshot.conforms_orEmpty _ fun _ ht => (hb.of_get? ht).2,
    Snapshot.isPlain_orEmpty _ fun _ ht => hb.isPlain ht⟩

theorem Finds.diffFrom (h : Finds k base c next) :
    (next.version k).diffFrom c.intent (base.values k) = some c ∧
      (c.intent = .delete ↔ next.get? k = none) ∧ (base.get? k = none → c.intent = .add) := by
  rw [← fields_version]
  exact Snapshot.diffFrom_of_recordChange? (fun _ ht => h.sound_base.of_get? ht)
    (fun _ ht => (h.sound_next.of_get? ht).1) h.found

theorem Finds.identity_eq (h : Finds k base c next) : c.identity = ⟨order, k⟩ :=
  (Snapshot.of_diffFrom h.diffFrom.1).1.trans (h.sound_next.version k).1

/-- Merging what is found between two books into what leads to the order in the one gives what leads
to the order in the other. -/
theorem Finds.turns (h : Finds k base c next) {before : List (Value Snapshot)}
    {qs : List (Pending Accumulator)}
    (hqs : Accumulator.Turns models order.kinds before qs
      ((base.values k).map Snapshot.bareValue)) :
    c.WellFormed models ∧
      Accumulator.Turns models order.kinds before (Accumulator.absorbFields c.fields qs)
        ((next.values k).map Snapshot.bareValue) := by
  obtain ⟨hidentity, hconforms, hplain⟩ := h.sound_next.version k
  have hlayout : (next.version k).layout = order := congrArg Identity.layout hidentity
  have hbase := h.sound_base.isBase_values k
  have hdiff := h.diffFrom.1
  rw [← hlayout] at hqs hbase ⊢
  rw [← fields_version next]
  exact ⟨Snapshot.wellFormed_of_diffFrom hconforms hplain hbase hdiff,
    hqs.absorb hconforms hplain hbase hdiff⟩

theorem mapM_ok {α β : Type} {f : α → Except IdentityMismatch β} {g : α → β} {as : List α}
    (h : ∀ a ∈ as, f a = .ok (g a)) : as.mapM f = .ok (as.map g) := by
  induction as with
  | nil => rfl
  | cons a as ih =>
      rw [List.forall_mem_cons] at h
      rw [List.mapM_cons, h.1, ih h.2]
      rfl

theorem Sound.diffEntry_eq (hb : b.Sound) (hbase : base.Sound) {e : Key × Snapshot}
    (he : e ∈ b.orders) :
    diffEntry base e = .ok (Snapshot.recordChange? (base.get? e.1) (some e.2)) := by
  unfold diffEntry
  cases hget : base.get? e.1 with
  | none => rfl
  | some r =>
      have hidentity : r.identity = e.2.identity :=
        (hbase.of_get? hget).1.trans (hb.orders e he).1.symm
      rw [Snapshot.recordChange?, if_pos hidentity]
      exact Snapshot.diffAgainst_edit hidentity .update

/-- Comparing two books never fails and finds for each order what leads from the one version of it
to the other. -/
theorem Sound.diff (hb : b.Sound) (hbase : base.Sound) :
    ∃ told, b.diff base = .ok told ∧
      ∀ k, changesOf k told = (Snapshot.recordChange? (base.get? k) (b.get? k)).toList := by
  have hhere : b.orders.mapM (diffEntry base) =
      .ok (b.orders.map fun e => Snapshot.recordChange? (base.get? e.1) (some e.2)) :=
    mapM_ok fun e he => hb.diffEntry_eq hbase he
  have hgone : ∀ e ∈ base.orders, ∀ c, e.2.toChange .delete = some c → c.key = e.1 := by
    intro e he c hc
    have hidentity := (Snapshot.of_teardown hc).1.trans (hbase.orders e he).1
    exact congrArg Identity.key hidentity
  have hthere : ∀ e ∈ b.orders, ∀ c,
      Snapshot.recordChange? (base.get? e.1) (some e.2) = some c → c.key = e.1 := by
    intro e he c hc
    have hget : b.get? e.1 = some e.2 := (Keyed.mem_iff_find? hb.ascending e.1 e.2).1 he
    have hfinds : Finds e.1 base c b := ⟨hbase, hb, by rw [hget]; exact hc⟩
    exact congrArg Identity.key hfinds.identity_eq
  have htable := Keyed.tabulates_append hbase.ascending hb.ascending _ _ hgone hthere
  refine ⟨_, by rw [OrderBook.diff, hhere]; rfl, fun k => ?_⟩
  rw [List.filterMap_map, Function.id_comp]
  refine ((htable.perm List.perm_append_comm).filter_key k).trans ?_
  congr 1
  unfold get?
  cases Keyed.find? k b.orders with
  | some s => rfl
  | none => cases Keyed.find? k base.orders <;> rfl

/-! ### What is pending leads from one version to another -/

/-- What is pending for an order leads from one version of it to another. -/
structure Merged (k : Key) (start : OrderBook) (a : Accumulator) (b : OrderBook) : Prop where
  identity_eq : a.identity = ⟨order, k⟩
  settled : a.state.Settled
  turns : Accumulator.Turns models order.kinds ((start.values k).map Snapshot.bareValue) a.fields
    ((b.values k).map Snapshot.bareValue)
  created : start.get? k = none → a.state.initial = .add
  deleted_iff : a.state.current = .delete ↔ b.get? k = none

/-- What is pending for an order, if anything, leads from one version of it to another. -/
def Stands (k : Key) (start : OrderBook) : Option Accumulator → OrderBook → Prop
  | none, b => start.content k = b.content k
  | some a, b => Merged k start a b

theorem Stands.congr {o : Option Accumulator} (h : Stands k start o b)
    (hcontent : b.content k = b'.content k) : Stands k start o b' := by
  cases o with
  | none => exact h.trans hcontent
  | some a =>
      have hnone : b.get? k = none ↔ b'.get? k = none := by
        unfold content at hcontent
        rw [← Option.map_eq_none_iff, hcontent, Option.map_eq_none_iff]
      exact ⟨h.identity_eq, h.settled, values_bare_eq hcontent ▸ h.turns, h.created,
        h.deleted_iff.trans hnone⟩

theorem Stands.merged {o : Option Accumulator} (h : Stands k start o base)
    (hc : Finds k base c next) : Stands k start (Journal.merged o c) next := by
  obtain ⟨-, hdelete, hadd⟩ := hc.diffFrom
  cases o with
  | none =>
      have hlayout : c.layout = order := congrArg Identity.layout hc.identity_eq
      have hnothing : Accumulator.Turns models order.kinds
          ((start.values k).map Snapshot.bareValue) (order.kinds.map Pending.zero)
          ((base.values k).map Snapshot.bareValue) :=
        values_bare_eq h ▸ Accumulator.turns_zeros _ _
      obtain ⟨hwf, hturns⟩ := hc.turns hnothing
      rw [Journal.merged, Option.elim_none, Accumulator.ofChange_eq hwf, hlayout]
      refine ⟨?_, IntentState.settled_start c.intent, hturns, fun hstart => hadd ?_, hdelete⟩
      · exact hlayout ▸ hc.identity_eq
      · unfold Stands content at h
        rw [hstart] at h
        exact Option.map_eq_none_iff.1 h.symm
  | some a =>
      rw [Journal.merged, Option.elim_some, Accumulator.absorb_eq]
      refine ⟨h.identity_eq, IntentState.settled_absorb a.state c.intent, (hc.turns h.turns).2,
        fun hstart => ?_, ?_⟩
      · rw [IntentState.initial_absorb]
        exact h.created hstart
      · rw [IntentState.current_absorb_eq_delete_iff]
        exact hdelete

/-! ### What a batch does -/

theorem Sound.plain_edit (hr : r.Sound) (k : Key) : (r.edit k).Plain := by
  unfold edit
  cases hget : r.get? k with
  | none => exact Draft.plain_new order k
  | some s => exact Draft.plain_edit (hr.isPlain hget)

theorem Sound.contents_edit (hr : r.Sound) (k : Key) :
    (r.edit k).slots.map Draft.contentSlot = (r.values k).map Snapshot.bareValue :=
  (Draft.fields_of_content (Draft.content_of_begun (hr.begun_edit k))).symm

theorem Sound.content_eq (hb : b.Sound) {s : Snapshot} (hs : b.get? k = some s) :
    b.content k = some ⟨order, k, .zero, (b.values k).map Snapshot.bareValue⟩ := by
  have hidentity := (hb.of_get? hs).1
  simp only [Snapshot.identity, Identity.mk.injEq] at hidentity
  rw [content, values, hs, Option.map_some, Snapshot.bare_eq, hidentity.1, hidentity.2]
  rfl

theorem Merged.sound (h : Merged k start a b) :
    List.Forall₂ (Accumulator.PendingSound models) a.layout.kinds a.fields := by
  have hlayout : a.layout = order := congrArg Identity.layout h.identity_eq
  rw [hlayout]
  exact h.turns.sound

/-- If what is merged for an order makes no change, nothing has become of the order. -/
theorem Merged.content_eq_of_silent (h : Merged k start a b) (hstart : start.Sound) (hb : b.Sound)
    (hbuild : Accumulator.build a = none) : start.content k = b.content k := by
  rw [Accumulator.build_eq_ite h.sound] at hbuild
  split at hbuild
  · next hsilent =>
    obtain ⟨hupdate, huntouched⟩ := hsilent
    have hstays : b.get? k ≠ none := fun hnone => by
      rw [h.deleted_iff.2 hnone] at hupdate
      cases hupdate
    -- An order that was not there would have been created, and what is pending would be no update.
    have hthere : start.get? k ≠ none := fun hnone =>
      h.settled.initial_ne_add hupdate (h.created hnone)
    obtain ⟨s, hs⟩ := Option.ne_none_iff_exists'.1 hthere
    obtain ⟨s', hs'⟩ := Option.ne_none_iff_exists'.1 hstays
    rw [hstart.content_eq hs, hb.content_eq hs',
      h.turns.eq_of_untouched (hstart.isBase_values k) huntouched]
  · cases hbuild

/-- The change that is merged for an order takes every book from the one version of the order to the
other. -/
theorem Merged.carries (h : Merged k start a b) (hb : b.Sound)
    (hbuild : Accumulator.build a = some c) : Carries (start.content k) c (b.content k) := by
  have hlayout : a.layout = order := congrArg Identity.layout h.identity_eq
  have hkey : a.key = k := congrArg Identity.key h.identity_eq
  have hconforms := Accumulator.conforms_of_build h.sound hbuild
  obtain rfl := Accumulator.eq_of_build hbuild
  refine ⟨hlayout, .inr hconforms, fun r hr hbefore => ?_⟩
  dsimp only at hbefore ⊢
  rw [hkey] at hbefore ⊢
  by_cases hdelete : a.state.current = .delete
  · rw [Draft.content_applyTo_delete hdelete, content, h.deleted_iff.1 hdelete]
    rfl
  · obtain ⟨s, hs⟩ := Option.ne_none_iff_exists'.1 fun hnone => hdelete (h.deleted_iff.2 hnone)
    have hdraft := hr.draftOf_edit k
    have hcoheres := (Draft.coherent_iff.1 hdraft.coherent).2
    rw [hdraft.layout_eq] at hcoheres
    have hturned := h.turns.content_eq (r.edit k).slots hcoheres
      (Draft.plain_iff.1 (hr.plain_edit k)) ((hr.contents_edit k).trans (values_bare_eq hbefore))
    rw [Draft.content_applyTo_of_ne_delete hdelete, hb.content_eq hs, hdraft.layout_eq,
      hdraft.key_eq, ← hturned]
    rfl

/-- What is pending for an order makes a batch lead from the one version of it to the other. -/
theorem Stands.leads {o : Option Accumulator} (h : Stands k start o b) (hstart : start.Sound)
    (hb : b.Sound) :
    Leads (start.content k) (o.bind Accumulator.build).toList (b.content k) := by
  cases o with
  | none => exact h
  | some a =>
      rw [Option.bind_some]
      cases hbuild : Accumulator.build a with
      | none => exact Merged.content_eq_of_silent h hstart hb hbuild
      | some c => exact ⟨b.content k, Merged.carries h hb hbuild, rfl⟩

/-! ### Histories -/

/-- The changes are what comparisons of books have found for the order, one after another. -/
def Recounts (k : Key) : OrderBook → List Change → OrderBook → Prop
  | b, [], b' => b.content k = b'.content k
  | b, c :: cs, b' =>
    ∃ base next, base.content k = b.content k ∧ Finds k base c next ∧ Recounts k next cs b'

variable {cs ds : List Change}

theorem Recounts.congr (h : Recounts k base cs b') (hcontent : b.content k = base.content k) :
    Recounts k b cs b' := by
  cases cs with
  | nil => exact hcontent.trans h
  | cons c cs =>
      obtain ⟨base', next, hbase', hfinds, hrest⟩ := h
      exact ⟨base', next, hbase'.trans hcontent.symm, hfinds, hrest⟩

theorem Recounts.split (h : Recounts k b (cs ++ ds) b') (hb : b.Sound) :
    ∃ mid, mid.Sound ∧ Recounts k b cs mid ∧ Recounts k mid ds b' := by
  induction cs generalizing b with
  | nil => exact ⟨b, hb, rfl, h⟩
  | cons c cs ih =>
      obtain ⟨base, next, hbase, hfinds, hrest⟩ := h
      obtain ⟨mid, hmid, hfirst, hsecond⟩ := ih hrest hfinds.sound_next
      exact ⟨mid, hmid, ⟨base, next, hbase, hfinds, hfirst⟩, hsecond⟩

/-- Recording what comparisons have found keeps what is pending up with the order. -/
theorem Stands.recounts {o : Option Accumulator} (h : Stands k start o b)
    (hcs : Recounts k b cs b') : Stands k start (cs.foldl Journal.merged o) b' := by
  induction cs generalizing o b with
  | nil => exact h.congr hcs
  | cons c cs ih =>
      obtain ⟨base, next, hbase, hfinds, hrest⟩ := hcs
      exact ih ((h.congr hbase.symm).merged hfinds) hrest

/-- Comparing two books finds nothing for an order exactly if the order is the same in both. -/
theorem recordChange?_eq_none_iff (hbase : base.Sound) (hb : b.Sound) :
    Snapshot.recordChange? (base.get? k) (b.get? k) = none ↔ base.content k = b.content k :=
  Snapshot.recordChange?_eq_none_iff
    (fun _ hs => ⟨(hbase.of_get? hs).2, hbase.isPlain hs⟩)
    fun _ hs => ⟨(hb.of_get? hs).2, hb.isPlain hs⟩

/-- Comparing book after book never fails and recounts what has become of each order. -/
theorem Sound.history (hb : b.Sound) {later : List OrderBook} (hlater : ∀ b ∈ later, b.Sound) :
    ∃ told, b.history later = .ok told ∧
      ∀ k, Recounts k b (changesOf k told) (later.getLast?.getD b) := by
  induction later generalizing b with
  | nil => exact ⟨[], rfl, fun _ => rfl⟩
  | cons next later ih =>
      rw [List.forall_mem_cons] at hlater
      obtain ⟨told, hdiff, hfound⟩ := hlater.1.diff hb
      obtain ⟨rest, hhistory, hrecounts⟩ := ih hlater.1 hlater.2
      refine ⟨told ++ rest, ?_, fun k => ?_⟩
      · rw [OrderBook.history, hdiff]
        exact congrArg (fun later => later.map (told ++ ·)) hhistory
      · rw [changesOf, List.filter_append, ← changesOf, ← changesOf, hfound, List.getLast?_cons,
          Option.getD_some]
        cases hchange : Snapshot.recordChange? (b.get? k) (next.get? k) with
        | none => exact (hrecounts k).congr ((recordChange?_eq_none_iff hb hlater.1).1 hchange)
        | some c => exact ⟨b, next, rfl, ⟨hb, hlater.1, hchange⟩, hrecounts k⟩

/-! ### Batches of a history -/

/-- Every batch is delivered as a whole, its changes in any order. -/
def Delivered (batches : List (List Change)) (deliveries : List (List (Nat × Change))) : Prop :=
  List.Forall₂ (fun batch delivery => (delivery.map Prod.snd).Perm batch) batches deliveries

theorem Leads.append {before between after : Option Snapshot} (h : Leads before cs between)
    (h' : Leads between ds after) : Leads before (cs ++ ds) after := by
  induction cs generalizing before with
  | nil => exact h.symm ▸ h'
  | cons c cs ih =>
      obtain ⟨next, hcarries, hrest⟩ := h
      exact ⟨next, hcarries, ih hrest⟩

/-- A journal never refuses to record and its batches have one change for each order at most.  They
lead where the changes recorded lead. -/
theorem exists_batches (pieces : List (List Change)) :
    ∃ batches, Journal.empty.batches pieces = .ok batches ∧
      (∀ batch ∈ batches, (batch.map Change.key).Nodup) ∧
      ∀ deliveries, Delivered batches deliveries → ∀ (k : Key) (b b' : OrderBook), b.Sound →
        b'.Sound → Recounts k b (changesOf k pieces.flatten) b' →
        Leads (b.content k) (changesOf k (deliveries.flatten.map Prod.snd)) (b'.content k) := by
  induction pieces with
  | nil =>
      refine ⟨[], rfl, by simp, fun deliveries hdeliveries k b b' _ _ h => ?_⟩
      cases hdeliveries
      exact h
  | cons piece pieces ih =>
      obtain ⟨j, hrecord, hj, hpending⟩ := Journal.sound_empty.recordAll piece
      obtain ⟨batches, hbatches, hnodup, hlead⟩ := ih
      have htable := hj.tabulates_drain
      refine ⟨j.drain.1 :: batches, ?_, ?_, ?_⟩
      · rw [Journal.batches, hrecord]
        exact congrArg (fun later => later.map (j.drain.1 :: ·)) hbatches
      · exact List.forall_mem_cons.2 ⟨htable.nodup, hnodup⟩
      · intro deliveries hdeliveries k b b' hb hb' h
        obtain ⟨delivery, deliveries, hperm, hrest, rfl⟩ := List.forall₂_cons_left_iff.1 hdeliveries
        rw [List.flatten_cons, changesOf, List.filter_append] at h
        obtain ⟨mid, hmid, hfirst, hsecond⟩ := h.split hb
        rw [List.flatten_cons, List.map_append, changesOf, List.filter_append]
        refine Leads.append ?_ (hlead deliveries hrest k mid b' hmid hb' hsecond)
        rw [(htable.perm hperm).filter_key k, hpending]
        have hstands : Stands k b ((changesOf k piece).foldl Journal.merged none) mid :=
          Stands.recounts (show Stands k b none b from rfl) hfirst
        exact hstands.leads hb hmid

/-- Whatever becomes of the orders of a book from version to version, and wherever the journal is
drained in between, a replica that began as the first version and gets the batches, the changes of
each batch in any order, ends as the last version. -/
theorem batched_replica_converges {first replica : OrderBook} {later : List OrderBook}
    (hfirst : first.Reachable) (hlater : ∀ b ∈ later, b.Reachable) (hr : replica.Reachable)
    (hstart : replica.same first = true) :
    ∃ told, first.history later = .ok told ∧
      ∀ pieces : List (List Change), pieces.flatten = told →
        ∃ batches, Journal.empty.batches pieces = .ok batches ∧
          (∀ batch ∈ batches, (batch.map Change.key).Nodup) ∧
          ∀ deliveries, Delivered batches deliveries →
            ∃ final, replica.receive deliveries.flatten = .ok final ∧
              final.same (later.getLast?.getD first) = true := by
  obtain ⟨told, hhistory, hrecounts⟩ := hfirst.sound.history fun b hb => (hlater b hb).sound
  have hlast : (later.getLast?.getD first).Sound := by
    cases hget : later.getLast? with
    | none => exact hfirst.sound
    | some b => exact (hlater b (List.mem_of_getLast? hget)).sound
  refine ⟨told, hhistory, fun pieces hpieces => ?_⟩
  obtain ⟨batches, hbatches, hnodup, hlead⟩ := exists_batches pieces
  refine ⟨batches, hbatches, hnodup, fun deliveries hdeliveries => ?_⟩
  have hsame := (same_iff_content_eq hr.sound hfirst.sound).1 hstart
  obtain ⟨final, hreceive, hfinal, hcontent⟩ :=
    @Sound.receive_of_leads replica hr.sound deliveries.flatten
      (later.getLast?.getD first).content fun k => by
        rw [hsame k]
        refine hlead deliveries hdeliveries k first _ hfirst.sound hlast ?_
        rw [hpieces]
        exact hrecounts k
  exact ⟨final, hreceive, (same_iff_content_eq hfinal hlast).2 hcontent⟩

/-- The book with one order, which has been placed. -/
def placed : OrderBook := (empty.commit 0 (placing.draft empty)).1

theorem reachable_placed : placed.Reachable :=
  .commit .empty (.run (.new order (.int 1)) (fits_setStatus "Placed")) rfl 0

/-- An order is created, deleted and created again before the journal is drained. -/
theorem batched_replica_converges_of_renewed :
    ∃ told batches, empty.history [placed, empty, placed] = .ok told ∧
      Journal.empty.batches [told] = .ok batches ∧
      ∃ final, empty.receive (batches.flatten.map fun c => (1, c)) = .ok final ∧
        final.same placed = true := by
  have hsame : empty.same empty = true :=
    (same_iff_content_eq Reachable.empty.sound Reachable.empty.sound).2 fun _ => rfl
  have hlater : ∀ b ∈ [placed, empty, placed], b.Reachable := by
    simp [reachable_placed, Reachable.empty]
  obtain ⟨told, hhistory, hpieces⟩ := batched_replica_converges .empty hlater .empty hsame
  obtain ⟨batches, hbatches, -, hdelivered⟩ := hpieces [told] (by simp)
  obtain ⟨final, hreceive, hfinal⟩ := hdelivered (batches.map (List.map fun c => (1, c)))
    (List.forall₂_map_right_iff.2 (List.forall₂_same.2 fun batch _ => by simp [Function.comp_def]))
  rw [← List.map_flatten] at hreceive
  exact ⟨told, batches, hhistory, hbatches, final, hreceive, hfinal⟩

end OrderBook

end Orders

end VersionedRecords
