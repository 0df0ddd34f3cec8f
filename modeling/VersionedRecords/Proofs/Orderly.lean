import VersionedRecords.Proofs.Accumulation

/-!
Orderly accumulators.

Whatever is merged, and in whatever form it is brought, what is pending for a field is of the kind of
the field and ascends by key.  That alone makes all that an accumulator is built into canonical: an
element is told once, in its place, and a sub-record with nothing to tell drops out.
-/

namespace VersionedRecords

namespace Keyed

theorem mem_ofList {α : Type} {es : List (Key × α)} {e : Key × α} (h : e ∈ ofList es) :
    e ∈ es := by
  have general : ∀ (es : List (Key × α)) (m : Keyed α),
      e ∈ es.foldl (fun m e => insert e.1 e.2 m) m → e ∈ es ∨ e ∈ m := by
    intro es
    induction es with
    | nil => exact fun m he => .inr he
    | cons f es ih =>
        intro m he
        rcases ih _ he with he | he
        · exact .inl (List.mem_cons_of_mem _ he)
        · rcases mem_insert he with rfl | he
          · exact .inl (by simp)
          · exact .inr he
  simpa using general es [] h

end Keyed

namespace Payload

/-- What is carried is for a field of the kind. -/
def IsOf {γ : Type} : FieldKind → Payload γ → Prop
  | .scalar _, .scalar _ => True
  | .attached _, .attached _ => True
  | .nested _, .nested _ => True
  | .keySet _, .keySet _ => True
  | .valueMap _ _, .valueMap _ => True
  | .modelMap _ _, .modelMap _ => True
  | _, _ => False

/-- What is carried is for a field of the kind, and the changes of sub-records in it are canonical.
The changes of elements may come in any order, any number of times or not at all. -/
structure Offers (kind : FieldKind) (p : Payload Change) : Prop where
  isOf : p.IsOf kind
  canonical : ∀ c ∈ p.changes, c.Canonical

theorem Offers.of_proper {kind : FieldKind} {p : Payload Change} (h : p.Proper kind) :
    p.Offers kind := by
  cases kind <;> cases p <;> simp only [Proper] at h
  · exact ⟨trivial, by simp [changes]⟩
  · exact ⟨trivial, by simp [changes]⟩
  · exact ⟨trivial, by simpa [changes] using h⟩
  · exact ⟨trivial, by simp [changes]⟩
  · exact ⟨trivial, by simp [changes]⟩
  · exact ⟨trivial, by simpa [changes] using h.2.2⟩

end Payload

theorem Change.Canonical.proper {c : Change} (hc : c.Canonical) :
    Accumulator.ProperFields c.layout.kinds c.fields :=
  (canonical_iff.1 hc).2.imp fun _ _ h q hq => Payload.proper_of_canonical (h q hq)

namespace Accumulator

mutual

/-- Whatever is pending is of the kind of its field and ascends by key, and so in all accumulators
below. -/
def Orderly : Accumulator → Prop
  | ⟨layout, _, _, fields⟩ => FieldsOrderly layout.kinds fields

def FieldsOrderly : List FieldKind → List (Pending Accumulator) → Prop
  | [], [] => True
  | kind :: kinds, q :: qs => PendingOrderly kind q ∧ FieldsOrderly kinds qs
  | _, _ => False

def PendingOrderly : FieldKind → Pending Accumulator → Prop
  | .scalar _, .scalar _ => True
  | .attached _, .attached _ => True
  | .nested _, .nested none => True
  | .nested _, .nested (some a) => Orderly a
  | .keySet _, .keySet pending => Keyed.Ascending pending
  | .valueMap _ _, .valueMap pending => Keyed.Ascending pending
  | .modelMap _ _, .modelMap pending => Keyed.Ascending pending ∧ EntriesOrderly pending
  | _, _ => False

def EntriesOrderly : List (Key × RecordEntryState Accumulator) → Prop
  | [] => True
  | (_, ⟨_, a⟩) :: es => Orderly a ∧ EntriesOrderly es

end

attribute [grind =] Orderly FieldsOrderly PendingOrderly EntriesOrderly

theorem orderly_iff {a : Accumulator} :
    a.Orderly ↔ List.Forall₂ PendingOrderly a.layout.kinds a.fields := by
  obtain ⟨layout, state, key, fields⟩ := a
  rw [Orderly]
  dsimp only
  generalize layout.kinds = kinds
  induction kinds generalizing fields with
  | nil => cases fields <;> simp [FieldsOrderly]
  | cons kind kinds ih => cases fields <;> simp [FieldsOrderly, ih]

theorem entriesOrderly_iff {es : Keyed (RecordEntryState Accumulator)} :
    EntriesOrderly es ↔ ∀ e ∈ es, e.2.pending.Orderly := by
  induction es with
  | nil => simp [EntriesOrderly]
  | cons e es ih => simp [EntriesOrderly, ih]

/-! ### What orderly pending changes look like, kind by kind -/

theorem pendingOrderly_scalar {t : DatumType} {q : Pending Accumulator} :
    PendingOrderly (.scalar t) q ↔ ∃ v : Option Datum, q = .scalar v := by
  cases q <;> simp [PendingOrderly]

theorem pendingOrderly_attached {t : DatumType} {q : Pending Accumulator} :
    PendingOrderly (.attached t) q ↔ ∃ v : Option (Option Datum), q = .attached v := by
  cases q <;> simp [PendingOrderly]

theorem pendingOrderly_nested {m : String} {q : Pending Accumulator} :
    PendingOrderly (.nested m) q ↔
      ∃ a : Option Accumulator, q = .nested a ∧ ∀ b ∈ a, b.Orderly := by
  cases q with
  | nested a => cases a <;> simp [PendingOrderly]
  | _ => simp [PendingOrderly]

theorem pendingOrderly_keySet {k : KeyType} {q : Pending Accumulator} :
    PendingOrderly (.keySet k) q ↔
      ∃ pending : Keyed IntentState, q = .keySet pending ∧ Keyed.Ascending pending := by
  cases q <;> simp [PendingOrderly]

theorem pendingOrderly_valueMap {k : KeyType} {t : DatumType} {q : Pending Accumulator} :
    PendingOrderly (.valueMap k t) q ↔
      ∃ pending : Keyed EntryState, q = .valueMap pending ∧ Keyed.Ascending pending := by
  cases q <;> simp [PendingOrderly]

theorem pendingOrderly_modelMap {k : KeyType} {m : String} {q : Pending Accumulator} :
    PendingOrderly (.modelMap k m) q ↔
      ∃ pending : Keyed (RecordEntryState Accumulator), q = .modelMap pending ∧
        Keyed.Ascending pending ∧ ∀ e ∈ pending, e.2.pending.Orderly := by
  cases q <;> simp [PendingOrderly, entriesOrderly_iff]

theorem pendingOrderly_zero (kind : FieldKind) : PendingOrderly kind (.zero kind) := by
  cases kind with
  | keySet k => exact List.Pairwise.nil
  | valueMap k t => exact List.Pairwise.nil
  | modelMap k m => exact ⟨List.Pairwise.nil, trivial⟩
  | _ => trivial

theorem orderly_start (layout : Layout) (intent : Intent) (key : Key) :
    (start layout intent key).Orderly :=
  orderly_iff.2 <| List.forall₂_map_right_iff.2 <|
    List.forall₂_same.2 fun kind _ => pendingOrderly_zero kind

/-! ### What orderly accumulators are built into -/

theorem settleFields_eq_map (qs : List (Pending Accumulator)) :
    settleFields qs = qs.map settle := by
  induction qs with
  | nil => rw [settleFields, List.map_nil]
  | cons q qs ih => rw [settleFields, ih, List.map_cons]

/-- Whatever the accumulator is built into is canonical. -/
def BuildsCanonical (a : Accumulator) : Prop := ∀ c, build a = some c → c.Canonical

theorem canonical_settle {kind : FieldKind} {q : Pending Accumulator} (hq : PendingOrderly kind q)
    (ih : ∀ a ∈ q.accumulators, a.Orderly → a.BuildsCanonical) :
    ∀ p ∈ settle q, Change.PayloadCanonical kind p := by
  intro p hp
  have hamounts := amountsTo_of_mem_settle hp
  cases kind with
  | scalar t =>
      obtain ⟨v, rfl⟩ := pendingOrderly_scalar.1 hq
      cases hamounts
      trivial
  | attached t =>
      obtain ⟨v, rfl⟩ := pendingOrderly_attached.1 hq
      cases hamounts
      trivial
  | nested m =>
      obtain ⟨_, rfl, ha⟩ := pendingOrderly_nested.1 hq
      cases hamounts with
      | @nested a c hc => exact ih a (by simp [Pending.accumulators]) (ha a rfl) c hc
  | keySet k =>
      obtain ⟨pending, rfl, hpending⟩ := pendingOrderly_keySet.1 hq
      cases hamounts with
      | keySet hne => exact ⟨hne, MemberChange.sorted_settle hpending⟩
  | valueMap k t =>
      obtain ⟨pending, rfl, hpending⟩ := pendingOrderly_valueMap.1 hq
      cases hamounts with
      | valueMap hne => exact ⟨hne, EntryChange.sorted_settle hpending⟩
  | modelMap k m =>
      obtain ⟨pending, rfl, hpending, hentries⟩ := pendingOrderly_modelMap.1 hq
      cases hamounts with
      | modelMap hne =>
          refine ⟨hne, ?_, Change.entriesCanonical_iff.2 fun c hc => ?_⟩
          · rw [settleEntries_eq_filterMap]
            exact RecordEntryChange.sorted_ofStates hpending
          · obtain ⟨e, he, -, hbuild⟩ := built_of_mem_settleEntries hc
            exact ih e.2.pending (List.mem_map_of_mem he) (hentries e he) c.change hbuild

theorem Orderly.buildsCanonical {a : Accumulator} (ha : a.Orderly) : a.BuildsCanonical := by
  induction a using Accumulator.induction with
  | step a ih =>
      intro c hc
      have hupdate : ¬(a.state.current = .update ∧
          (settleFields a.fields).any Option.isSome = false) := by
        obtain ⟨layout, state, key, fields⟩ := a
        rw [build] at hc
        exact (Option.ite_none_left_eq_some.1 hc).1
      obtain rfl := eq_of_build hc
      refine Change.canonical_iff.2 ⟨?_, ?_⟩
      · intro hintent
        rw [← Bool.not_eq_false]
        exact fun hnone => hupdate ⟨hintent, hnone⟩
      · dsimp only
        have hfields := orderly_iff.1 ha
        rw [settleFields_eq_map]
        refine List.forall₂_map_right_iff.2 (List.forall₂_iff_zip.2 ⟨hfields.length_eq, ?_⟩)
        intro kind q hmem
        exact canonical_settle ((List.forall₂_iff_zip.1 hfields).2 hmem)
          (ih q (List.of_mem_zip hmem).2)

/-! ### What keeps accumulators orderly -/

theorem orderly_ofPayload {kind : FieldKind} {p : Payload Change} (hp : p.IsOf kind)
    (ih : ∀ c ∈ p.changes, (ofChange c).Orderly) : PendingOrderly kind (ofPayload p) := by
  cases kind <;> cases p <;> simp only [Payload.IsOf] at hp <;> rw [ofPayload]
  · trivial
  · trivial
  · exact pendingOrderly_nested.2 ⟨_, rfl, by simpa [Payload.changes] using ih⟩
  · exact Keyed.ascending_ofList _
  · exact Keyed.ascending_ofList _
  · next cs =>
    refine pendingOrderly_modelMap.2 ⟨_, rfl, Keyed.ascending_ofList _, ?_⟩
    intro e he
    rw [ofEntries_eq_map] at he
    obtain ⟨c, hc, rfl⟩ := List.mem_map.1 (Keyed.mem_ofList he)
    exact ih c.change (List.mem_map_of_mem hc)

theorem orderly_ofChange {c : Change} (hc : c.Canonical) : (ofChange c).Orderly := by
  induction c using Change.induction with
  | step c ih =>
      have hproper := hc.proper
      obtain ⟨layout, intent, key, fields⟩ := c
      rw [ofChange]
      refine orderly_iff.2 ?_
      dsimp only at hproper ih ⊢
      generalize layout.kinds = kinds at hproper
      clear hc
      induction hproper with
      | nil =>
          rw [ofFields]
          · exact .nil
          · simp
          · simp
      | @cons kind p kinds ps hp hps ihps =>
          have hrest := ihps fun q hq => ih q (List.mem_cons_of_mem _ hq)
          cases p with
          | none =>
              rw [ofFields]
              exact .cons (pendingOrderly_zero kind) hrest
          | some p =>
              have hoffers := Payload.Offers.of_proper (hp p rfl)
              rw [ofFields]
              refine .cons (orderly_ofPayload hoffers.isOf ?_) hrest
              exact fun c hc => ih p (by simp) c hc (hoffers.canonical c hc)

/-- Merging the change into what is pending for its fields keeps that orderly. -/
def KeepsOrder (c : Change) : Prop :=
  ∀ qs, List.Forall₂ PendingOrderly c.layout.kinds qs →
    List.Forall₂ PendingOrderly c.layout.kinds (absorbFields c.fields qs)

theorem orderly_absorbRecord {c : Change} (hc : c.Canonical) (hkeeps : KeepsOrder c)
    {q : Option Accumulator} (hq : ∀ a ∈ q, a.Orderly) : (absorbRecord c q).Orderly := by
  cases q with
  | none => exact orderly_ofChange hc
  | some a =>
      rw [absorbRecord]
      split
      · next hsame =>
        have hlayout : a.layout = c.layout := congrArg Identity.layout hsame.2
        have hfields := orderly_iff.1 (hq a rfl)
        rw [absorb_eq]
        refine orderly_iff.2 ?_
        dsimp only
        rw [hlayout] at hfields ⊢
        exact hkeeps a.fields hfields
      · exact orderly_ofChange hc

theorem orderly_absorbPayload {kind : FieldKind} {p : Payload Change} (hp : p.Offers kind)
    (ih : ∀ c ∈ p.changes, KeepsOrder c) {q : Pending Accumulator} (hq : PendingOrderly kind q) :
    PendingOrderly kind (absorbPayload p q) := by
  obtain ⟨hof, hcanonical⟩ := hp
  cases kind <;> cases p <;> simp only [Payload.IsOf] at hof
  · rw [absorbPayload]
    trivial
  · rw [absorbPayload]
    trivial
  · next m c =>
    obtain ⟨a, rfl, ha⟩ := pendingOrderly_nested.1 hq
    have hmem : c ∈ (Payload.nested c).changes := List.mem_singleton.2 rfl
    have hrecord := orderly_absorbRecord (hcanonical c hmem) (ih c hmem) ha
    rw [absorbPayload_nested]
    exact pendingOrderly_nested.2 ⟨_, rfl, by simpa using hrecord⟩
  · next k cs =>
    obtain ⟨pending, rfl, hpending⟩ := pendingOrderly_keySet.1 hq
    rw [absorbPayload, MemberChange.mergeAll]
    exact Keyed.ascending_foldl_merge MemberChange.mergeInto_eq cs hpending
  · next k t cs =>
    obtain ⟨pending, rfl, hpending⟩ := pendingOrderly_valueMap.1 hq
    rw [absorbPayload, EntryChange.mergeAll]
    exact Keyed.ascending_foldl_merge EntryChange.mergeInto_eq cs hpending
  · next k m cs =>
    obtain ⟨pending, rfl, hpending, hentries⟩ := pendingOrderly_modelMap.1 hq
    rw [absorbPayload, absorbEntries_eq_foldl, pendingOrderly_modelMap]
    refine ⟨_, rfl, Keyed.ascending_foldl_merge RecordEntryChange.mergeEntry_eq cs hpending, ?_⟩
    refine Keyed.forall_foldl_merge RecordEntryChange.mergeEntry_eq
      (P := fun s => s.pending.Orderly) ?_ hentries
    intro c hc v hv
    have hmem : c.change ∈ (Payload.modelMap cs).changes := List.mem_map_of_mem hc
    refine orderly_absorbRecord (hcanonical _ hmem) (ih _ hmem) ?_
    intro a ha
    obtain ⟨s, hs, rfl⟩ := Option.map_eq_some_iff.1 ha
    exact hv s hs

theorem orderly_absorbFields {kinds : List FieldKind} {ps : List (Option (Payload Change))}
    (hps : List.Forall₂ (fun kind p => ∀ q ∈ p, q.Offers kind) kinds ps)
    (ih : ∀ p, some p ∈ ps → ∀ c ∈ p.changes, KeepsOrder c) {qs : List (Pending Accumulator)}
    (hqs : List.Forall₂ PendingOrderly kinds qs) :
    List.Forall₂ PendingOrderly kinds (absorbFields ps qs) := by
  induction hps generalizing qs with
  | nil =>
      cases hqs
      rw [absorbFields]
      · exact .nil
      · simp
      · simp
  | @cons kind p kinds ps hp hps ihps =>
      cases hqs with
      | @cons _ q _ qs hq hqs =>
          have hrest := ihps (fun p hmem => ih p (List.mem_cons_of_mem _ hmem)) hqs
          cases p with
          | none =>
              rw [absorbFields]
              exact .cons hq hrest
          | some p =>
              rw [absorbFields]
              exact .cons (orderly_absorbPayload (hp p rfl) (ih p (by simp)) hq) hrest

theorem keepsOrder {c : Change} (hc : c.Canonical) : KeepsOrder c := by
  induction c using Change.induction with
  | step c ih =>
      intro qs hqs
      have hoffers := hc.proper.imp fun _ _ h q hq => Payload.Offers.of_proper (h q hq)
      refine orderly_absorbFields hoffers ?_ hqs
      intro p hp d hd
      obtain ⟨kind, -, hkind⟩ := exists_of_mem_right hoffers hp
      exact ih p hp d hd ((hkind p rfl).canonical d hd)

/-- What is pending is all that matters. -/
theorem Orderly.of_state {a : Accumulator} (ha : a.Orderly) (state : IntentState) :
    Orderly { a with state := state } := by
  have hfields := orderly_iff.1 ha
  exact orderly_iff.2 hfields

/-- Merging what fields offer keeps what is pending orderly. -/
theorem Orderly.absorbFields {a : Accumulator} (ha : a.Orderly)
    {ps : List (Option (Payload Change))}
    (hps : List.Forall₂ (fun kind p => ∀ q ∈ p, q.Offers kind) a.layout.kinds ps) :
    Orderly { a with fields := Accumulator.absorbFields ps a.fields } := by
  refine orderly_iff.2 (orderly_absorbFields hps ?_ (orderly_iff.1 ha))
  intro p hp c hc
  obtain ⟨kind, -, hkind⟩ := exists_of_mem_right hps hp
  exact keepsOrder ((hkind p rfl).canonical c hc)

theorem Orderly.absorb {a : Accumulator} (ha : a.Orderly) {c : Change} (hc : c.Canonical)
    (hlayout : c.layout = a.layout) : (Accumulator.absorb c a).Orderly := by
  rw [absorb_eq]
  refine orderly_iff.2 ?_
  dsimp only
  rw [← hlayout]
  exact keepsOrder hc a.fields (hlayout ▸ orderly_iff.1 ha)

theorem Orderly.addField {a : Accumulator} (ha : a.Orderly) {i : Nat} {kind : FieldKind}
    (hkind : a.layout.kinds[i]? = some kind) {p : Payload Change} (hp : p.Offers kind) :
    (a.addField i p).Orderly := by
  refine orderly_iff.2 (forall₂_modify_right (orderly_iff.1 ha) hkind ?_)
  exact fun q hq => orderly_absorbPayload hp (fun c hc => keepsOrder (hp.canonical c hc)) hq

/-- Gathering whatever fields offer gives a canonical change. -/
theorem canonical_of_gather_of_offers {layout : Layout} {ps : List (Option (Payload Change))}
    (hps : List.Forall₂ (fun kind p => ∀ q ∈ p, q.Offers kind) layout.kinds ps) {intent : Intent}
    {key : Key} {c : Change} (hc : gather layout intent key ps = some c) : c.Canonical :=
  ((orderly_start layout intent key).absorbFields hps).buildsCanonical c hc

end Accumulator

end VersionedRecords
