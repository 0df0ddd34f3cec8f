import VersionedRecords.Orders.Book
import VersionedRecords.Proofs.Patching

/-!
What an order book holds.

Every order that can get into a book conforms and lies under its own key, so orders are plain and a
book is known by the contents that it has under each key.  Committing a draft and applying a change
both store what a draft builds, and what is stored under one key leaves all other keys alone.
-/

namespace VersionedRecords.Orders

/-- The layouts that the fields of orders name. -/
def models : String → Layout
  | "Customer" => customer
  | "LineItem" => lineItem
  | _ => order

theorem isExact_models (m : String) : (models m).isExact = true := by
  unfold models
  split <;> rfl

theorem fits_setScalar {layout : Layout} {field : String} {i : Nat} {t : DatumType} {v : Datum}
    (hindex : layout.indexOf? field = some i) (hkind : layout.kinds[i]? = some (.scalar t))
    (hv : v.Fits t) : (setScalar field v).Fits models layout :=
  Edit.fits_field hindex hkind (.setScalar hv)

theorem fits_setStatus (v : String) : (setScalar "status" (.variant v)).Fits models order :=
  fits_setScalar (i := 0) (by decide) rfl trivial

theorem fits_insertTag (k : Key) : (Edit.field "tags" (.insert k)).Fits models order :=
  .field fun _ _ _ _ => .insert k

namespace OrderBook

/-- The books that committing drafts of orders and applying changes of orders leads to. -/
inductive Reachable : OrderBook → Prop
  | empty : Reachable .empty
  | commit {b : OrderBook} {d : Draft} (hb : Reachable b) (hd : d.Reachable models)
      (horder : d.layout = order) (stamp : Nat) : Reachable (b.commit stamp d).1
  | apply {b b' : OrderBook} {c : Change} (hb : Reachable b) (hc : c.Conforms models)
      (horder : c.layout = order) {stamp : Nat} (happly : b.apply stamp c = .ok b') : Reachable b'

/-- The keys ascend, and under each of them lies a conforming order of that key. -/
structure Sound (b : OrderBook) : Prop where
  ascending : Keyed.Ascending b.orders
  orders : ∀ e ∈ b.orders, e.2.identity = ⟨order, e.1⟩ ∧ e.2.Conforms models

/-- The content of the order under a key. -/
def content (b : OrderBook) (k : Key) : Option Snapshot := (b.get? k).map Snapshot.bare

/-- The values of the fields of the order under a key; zeros if there is none. -/
def values (b : OrderBook) (k : Key) : List (Value Snapshot) :=
  (b.get? k).elim order.zeros Snapshot.fields

variable {b c : OrderBook}

theorem Sound.of_get? (hb : b.Sound) {k : Key} {s : Snapshot} (hs : b.get? k = some s) :
    s.identity = ⟨order, k⟩ ∧ s.Conforms models :=
  hb.orders (k, s) ((Keyed.mem_iff_find? hb.ascending k s).2 hs)

theorem isPlain_of_order {s : Snapshot} (hs : s.Conforms models) (hlayout : s.layout = order) :
    s.isPlain = true :=
  Snapshot.isPlain_of_exact isExact_models hs (by rw [hlayout]; rfl)

theorem Sound.isPlain (hb : b.Sound) {k : Key} {s : Snapshot} (hs : b.get? k = some s) :
    s.isPlain = true :=
  isPlain_of_order (hb.of_get? hs).2 (congrArg Identity.layout (hb.of_get? hs).1)

/-! ### Books by their contents -/

theorem same_iff_content_eq (hb : b.Sound) (hc : c.Sound) :
    b.same c = true ↔ ∀ k, b.content k = c.content k := by
  have hplain : ∀ {b : OrderBook}, b.Sound → ∀ e ∈ b.orders, e.2.isPlain = true :=
    fun hb e he => hb.isPlain ((Keyed.mem_iff_find? hb.ascending e.1 e.2).1 he)
  have hentries := Snapshot.sameEntries_iff
    (fun e he => Snapshot.sameIsBare_of_isPlain (hplain hb e he)) (hplain hc)
  rw [same, hentries]
  simp only [content, get?, ← Snapshot.find?_bareEntries]
  constructor
  · intro h k
    rw [h]
  · exact Keyed.ext_find? (Snapshot.ascending_bareEntries.2 hb.ascending)
      (Snapshot.ascending_bareEntries.2 hc.ascending)

theorem Sound.isBase_values (hb : b.Sound) (k : Key) :
    Snapshot.IsBase models order (b.values k) := by
  unfold values
  cases hget : b.get? k with
  | none => exact Snapshot.isBase_zeros order
  | some s =>
      obtain ⟨hidentity, hconforms⟩ := hb.of_get? hget
      exact Snapshot.isBase_fields hconforms (hb.isPlain hget) (congrArg Identity.layout hidentity)

theorem values_bare_eq {k : Key} (h : b.content k = c.content k) :
    (b.values k).map Snapshot.bareValue = (c.values k).map Snapshot.bareValue := by
  unfold content at h
  unfold values
  cases hb : b.get? k with
  | none =>
      rw [hb] at h
      rw [Option.map_eq_none_iff.1 h.symm]
  | some s =>
      rw [hb] at h
      obtain ⟨t, ht, hbare⟩ := Option.map_eq_some_iff.1 h.symm
      rw [ht]
      exact (Snapshot.bare_eq_iff.1 hbare.symm).2

/-! ### Drafts of stored orders -/

theorem Sound.begun_edit (hb : b.Sound) (k : Key) : (b.edit k).Begun ⟨order, k⟩ (b.values k) := by
  unfold edit values
  cases hget : b.get? k with
  | none => exact Draft.begun_new order k
  | some s => exact (hb.of_get? hget).1 ▸ Draft.begun_edit s

theorem reference_edit (b : OrderBook) (k : Key) : (b.edit k).reference = b.get? k := by
  unfold edit
  cases b.get? k <;> rfl

/-- The draft is a coherent one of the order with the key. -/
structure DraftOf (k : Key) (d : Draft) : Prop where
  coherent : d.Coherent models
  identity_eq : d.identity = ⟨order, k⟩

variable {k : Key} {d : Draft}

theorem DraftOf.layout_eq (hd : DraftOf k d) : d.layout = order :=
  congrArg Identity.layout hd.identity_eq

theorem DraftOf.key_eq (hd : DraftOf k d) : d.key = k :=
  congrArg Identity.key hd.identity_eq

theorem draftOf_new (k : Key) : DraftOf k (.new order k) := ⟨Draft.coherent_new order k, rfl⟩

theorem Sound.draftOf_edit (hb : b.Sound) (k : Key) : DraftOf k (b.edit k) := by
  refine ⟨?_, (hb.begun_edit k).identity_eq⟩
  unfold edit
  cases hget : b.get? k with
  | none => exact Draft.coherent_new order k
  | some s => exact Draft.coherent_edit (hb.of_get? hget).2

theorem DraftOf.run (hd : DraftOf k d) {e : Edit}
    (he : e.Fits models order) : DraftOf k (e.run d).1 :=
  ⟨he.keeps d hd.coherent hd.layout_eq, (e.frame_run d).1.trans hd.identity_eq⟩

theorem DraftOf.edited (hd : DraftOf k d) {edits : List Edit}
    (hedits : ∀ e ∈ edits, e.Fits models order) : DraftOf k (d.edited edits) where
  coherent := Draft.coherent_edited hd.coherent (hd.layout_eq ▸ hedits)
  identity_eq := (Draft.frame_edited edits d).1.trans hd.identity_eq

theorem DraftOf.map_bare_build (hd : DraftOf k d) (stamp : Nat) :
    (d.build stamp).map Snapshot.bare = d.content :=
  Draft.buildsContent_of_coherent hd.coherent stamp []

theorem DraftOf.of_build (hd : DraftOf k d) {stamp : Nat} {s : Snapshot}
    (hs : d.build stamp = some s) : s.identity = ⟨order, k⟩ ∧ s.Conforms models := by
  obtain ⟨hidentity, hconforms⟩ := Draft.of_buildAt hd.coherent hs
  exact ⟨hidentity.trans hd.identity_eq, hconforms⟩

/-! ### Storing -/

theorem Sound.get?_store (hb : b.Sound) (k j : Key) (s : Option Snapshot) :
    (b.store k s).get? j = if k = j then s else b.get? j := by
  cases s with
  | none => exact Keyed.find?_erase hb.ascending j k
  | some s => exact Keyed.find?_insert j k s b.orders

theorem Sound.store (hb : b.Sound) {k : Key} {s : Option Snapshot}
    (hs : ∀ t ∈ s, t.identity = ⟨order, k⟩ ∧ t.Conforms models) : (b.store k s).Sound := by
  cases s with
  | none =>
      refine ⟨Keyed.ascending_erase hb.ascending k, ?_⟩
      exact fun e he => hb.orders e ((Keyed.erase_sublist k b.orders).subset he)
  | some s =>
      refine ⟨Keyed.ascending_insert hb.ascending k s, ?_⟩
      intro e he
      rcases Keyed.mem_insert he with rfl | he
      · exact hs s rfl
      · exact hb.orders e he

/-- Storing what a draft builds puts the content of the draft under its key. -/
theorem Sound.store_build (hb : b.Sound) (hd : DraftOf k d) (stamp : Nat) :
    (b.store k (d.build stamp)).Sound ∧
      ∀ j, (b.store k (d.build stamp)).content j = if k = j then d.content else b.content j := by
  refine ⟨hb.store fun s hs => hd.of_build hs, ?_⟩
  intro j
  rw [content, hb.get?_store]
  split
  · exact hd.map_bare_build stamp
  · rfl

theorem Sound.apply_eq (hb : b.Sound) (stamp : Nat) (x : Change) :
    b.apply stamp x = .ok (b.store x.key ((x.applyTo (b.edit x.key)).build stamp)) := by
  have hkey : (b.edit x.key).key = x.key := (hb.draftOf_edit x.key).key_eq
  rw [apply, Draft.apply, requireSameKey, if_pos hkey]
  rfl

theorem Sound.draftOf_applyTo (hb : b.Sound) {x : Change} (horder : x.layout = order)
    (hx : x.intent = .delete ∨ x.Conforms models) :
    DraftOf x.key (x.applyTo (b.edit x.key)) := by
  have hdraft := hb.draftOf_edit x.key
  refine ⟨?_, (x.identity_applyTo _).trans hdraft.identity_eq⟩
  rcases hx with hdelete | hconforms
  · rw [Change.applyTo_eq, if_pos hdelete]
    exact Draft.coherent_setLastIntent (Draft.coherent_reset hdraft.coherent) _
  · exact Change.keepsCoherence_of_conforms hconforms _ hdraft.coherent
      (hdraft.layout_eq.trans horder.symm)

theorem commit_of_silent (hnone : d.diff = none) (b : OrderBook) (stamp : Nat) :
    b.commit stamp d = (b, none) := by
  rw [commit, hnone]

theorem commit_of_told {c : Change} (hsome : d.diff = some c) (b : OrderBook)
    (stamp : Nat) : b.commit stamp d = (b.store d.key (d.build stamp), some c) := by
  rw [commit, hsome]

theorem Sound.commit (hb : b.Sound) (hd : d.Coherent models)
    (horder : d.layout = order) (stamp : Nat) : (b.commit stamp d).1.Sound := by
  have hdraft : DraftOf d.key d := ⟨hd, by rw [Draft.identity, horder]⟩
  cases hdiff : d.diff with
  | none =>
      rw [commit_of_silent hdiff]
      exact hb
  | some x =>
      rw [commit_of_told hdiff]
      exact (hb.store_build hdraft stamp).1

/-- Every book that can be come by is sound. -/
theorem Reachable.sound (h : b.Reachable) : b.Sound := by
  induction h with
  | empty => exact ⟨List.Pairwise.nil, by simp [OrderBook.empty]⟩
  | commit hb hd horder stamp ih => exact ih.commit hd.coherent horder stamp
  | apply hb hc horder happly ih =>
      rw [ih.apply_eq] at happly
      cases happly
      exact (ih.store_build (ih.draftOf_applyTo horder (.inr hc)) _).1

end OrderBook

end VersionedRecords.Orders
