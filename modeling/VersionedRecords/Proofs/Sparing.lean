import VersionedRecords.Proofs.References

/-!
What a change leaves alone.

To apply what a change carries for a set or a map, the whole working copy is made, and the change
goes through it element by element.  All the same nothing changes but what the change names: fields
that are not carried keep their slots, elements that are not named keep what is held under their
keys, and so in every draft that is patched in place.
-/

namespace VersionedRecords

/-! ### Elements -/

/-- What is held under a key of a set or a map; `ρ` is the type of records. -/
inductive Item (ρ : Type)
  | nothing
  | member
  | value (value : Datum)
  | record (record : ρ)

/-- The same with other records, some of which may be dropped. -/
def Item.bind {ρ τ : Type} (f : ρ → Option τ) : Item ρ → Item τ
  | .nothing => .nothing
  | .member => .member
  | .value v => .value v
  | .record r => (f r).elim .nothing .record

/-- What the working copy of a set or a map holds under a key. -/
def Working.item {δ : Type} (k : Key) : Working δ → Item δ
  | .keySet ms => if k ∈ ms then .member else .nothing
  | .valueMap es => (Keyed.find? k es).elim .nothing .value
  | .modelMap es => (Keyed.find? k es).elim .nothing .record
  | _ => .nothing

/-- What a set or a map holds under a key. -/
def Value.item {σ : Type} (k : Key) : Value σ → Item σ
  | .keySet _ ms => if k ∈ ms then .member else .nothing
  | .valueMap _ es => (Keyed.find? k es).elim .nothing .value
  | .modelMap _ es => (Keyed.find? k es).elim .nothing .record
  | _ => .nothing

/-- The keys of the elements that a payload changes. -/
def Payload.keys {γ : Type} : Payload γ → List Key
  | .keySet cs => cs.map MemberChange.key
  | .valueMap cs => cs.map EntryChange.key
  | .modelMap cs => cs.map RecordEntryChange.key
  | _ => []

/-- What the first slot holds under a key, the second holds as well.  The working copies agree, and
whenever and wherever they are frozen, so do the contents.  A record that nothing has been done to
is frozen to its reference both times. -/
structure Slot.Keeps (k : Key) (s s' : Slot Snapshot Draft) : Prop where
  item_eq : s'.working.item k = s.working.item k
  content_eq : ∀ stamp path stamp' path',
    ((Draft.freezeSlot stamp' path' s').item k).bind (fun r => some r.bare) =
      ((Draft.freezeSlot stamp path s).item k).bind fun r => some r.bare
  reference_eq : ∀ (d : Draft) (r : Snapshot), s.working.item k = .record d →
    d.isTouched = false → d.isDeleted = false → d.reference = some r → ∀ stamp path,
      (Draft.freezeSlot stamp path s).item k = .record r ∧
        (Draft.freezeSlot stamp path s').item k = .record r

namespace Change

mutual

/-- How a draft stands to what it was before a change: it is about the same record and has the same
reference, and unless the change is a deletion, it has changed in nothing that the change does not
name. -/
def Spares : Change → Draft → Draft → Prop
  | ⟨_, intent, _, fields⟩, d, d' =>
    d'.identity = d.identity ∧ d'.reference = d.reference ∧ d'.lastIntent = some intent ∧
      (intent ≠ .delete → FieldsSpare fields d.slots d'.slots)

/-- A field that is not carried has the very slot that it had.  A field that is carried is touched,
keeps all elements that are not named, and may have changed further down. -/
def FieldsSpare : List (Option (Payload Change)) → List (Slot Snapshot Draft) →
    List (Slot Snapshot Draft) → Prop
  | [], [], [] => True
  | none :: ps, s :: ss, s' :: ss' => s' = s ∧ FieldsSpare ps ss ss'
  | some p :: ps, s :: ss, s' :: ss' =>
    (s'.isTouched = true ∧ (∀ k, k ∉ p.keys → s.Keeps k s') ∧
      PayloadSpares p s.working s'.working) ∧ FieldsSpare ps ss ss'
  | _, _, _ => False

/-- A sub-record of the same identity that is not created anew is spared in turn, and so are the
entries of a map. -/
def PayloadSpares : Payload Change → Working Draft → Working Draft → Prop
  | .nested c, w, w' => ∀ d, w = .nested (some d) → c.intent ≠ .add → d.identity = c.identity →
    ∃ d', w' = .nested (some d') ∧ Spares c d d'
  | .modelMap cs, w, w' => ∀ es, w = .modelMap es → ∃ es', w' = .modelMap es' ∧
    EntriesSpare cs es es'
  | _, _, _ => True

/-- Change by change, the entries under other keys stay, and one of the same identity that is
neither removed nor created anew is spared. -/
def EntriesSpare : List (RecordEntryChange Change) → Keyed Draft → Keyed Draft → Prop
  | [], es, es' => es' = es
  | ⟨intent, key, c⟩ :: cs, es, es' => ∃ next : Keyed Draft,
    (∀ k, k ≠ key → Keyed.find? k next = Keyed.find? k es) ∧
    (∀ d, Keyed.find? key es = some d → intent ≠ .delete → c.intent ≠ .add →
      d.identity = c.identity → ∃ d', Keyed.find? key next = some d' ∧ Spares c d d') ∧
    EntriesSpare cs next es'

end

end Change

/-! ### What frozen sets and maps hold -/

namespace Draft

variable {models : String → Layout}

theorem item_contentWorking {kind : FieldKind} {w : Working Draft}
    (hw : WorkingCoheres models kind w) (k : Key) :
    (contentWorking w).item k = (w.item k).bind content := by
  cases w with
  | nested d => rw [contentWorking_nested]; rfl
  | keySet ms =>
      by_cases hk : k ∈ ms <;> simp [contentWorking, Value.item, Working.item, hk, Item.bind]
  | valueMap es =>
      cases hfind : Keyed.find? k es <;>
        simp [contentWorking, Value.item, Working.item, hfind, Item.bind]
  | modelMap es =>
      obtain ⟨l, m, rfl⟩ := kind_of_modelMap hw
      obtain ⟨_, ⟨⟩, hes, -⟩ := workingCoheres_modelMap.1 hw
      rw [contentWorking, Value.item, Working.item, find?_contentEntries hes]
      cases hfind : Keyed.find? k es <;> simp [Item.bind]
  | _ => simp [contentWorking, Value.item, Working.item, Item.bind]

end Draft

theorem Snapshot.item_bareValue (v : Value Snapshot) (k : Key) :
    (bareValue v).item k = (v.item k).bind fun r => some r.bare := by
  cases v with
  | nested s => rw [bareValue_nested]; rfl
  | keySet o ms => by_cases hk : k ∈ ms <;> simp [bareValue, Value.item, hk, Item.bind]
  | valueMap o es =>
      cases hfind : Keyed.find? k es <;> simp [bareValue, Value.item, hfind, Item.bind]
  | modelMap o es =>
      rw [bareValue, Value.item, Value.item, find?_bareEntries]
      cases hfind : Keyed.find? k es <;> simp [Item.bind]
  | _ => simp [bareValue, Value.item, Item.bind]

namespace Draft

variable {models : String → Layout}

/-- Each entry of a map is built at some place of its own. -/
theorem find?_freezeEntries {es : Keyed Draft} (hes : Keyed.Ascending es) (stamp : Nat)
    (path : List Nat) (i : Nat) (k : Key) :
    ∃ j, Keyed.find? k (freezeEntries stamp path i es) =
      (Keyed.find? k es).bind (buildAt stamp (j :: path)) := by
  induction es generalizing i with
  | nil => exact ⟨i, by simp [freezeEntries]⟩
  | cons e es ih =>
      obtain ⟨l, d⟩ := e
      obtain ⟨hl, hrest⟩ := List.pairwise_cons.1 hes
      obtain ⟨j, hj⟩ := ih hrest (i + 1)
      by_cases hk : l = k
      · subst hk
        rw [Keyed.find?_eq_none_of_precedes hl] at hj
        refine ⟨i, ?_⟩
        cases hbuild : d.buildAt stamp (i :: path) with
        | none => simpa [freezeEntries, hbuild, Keyed.find?] using hj
        | some s => simp [freezeEntries, hbuild, Keyed.find?]
      · refine ⟨j, ?_⟩
        cases hbuild : d.buildAt stamp (i :: path) with
        | none => simpa [freezeEntries, hbuild, Keyed.find?, hk] using hj
        | some s => simpa [freezeEntries, hbuild, Keyed.find?, hk] using hj

/-- What a slot is frozen to has the content of what it holds. -/
theorem item_freezeSlot {kind : FieldKind} {s : Slot Snapshot Draft}
    (hs : SlotCoheres models kind s) (stamp : Nat) (path : List Nat) (k : Key) :
    ((freezeSlot stamp path s).item k).bind (fun r => some r.bare) =
      (s.working.item k).bind content := by
  have hfrozen : Snapshot.bareValue (freezeSlot stamp path s) = contentSlot s := by
    cases s with
    | deferred v => rfl
    | touched w =>
        have hdrafts : ∀ d ∈ w.drafts, d.BuildsContent :=
          fun d hd => buildsContent_of_coherent (coherent_of_mem_drafts hs hd)
        exact bareValue_freeze hdrafts stamp path
  rw [← Snapshot.item_bareValue, hfrozen, contentSlot_eq,
    item_contentWorking (workingCoheres_working hs)]

theorem buildAt_of_untouched {d : Draft} {r : Snapshot} (huntouched : d.isTouched = false)
    (hdeleted : d.isDeleted = false) (hreference : d.reference = some r) (stamp : Nat)
    (path : List Nat) : d.buildAt stamp path = some r := by
  rw [isTouched] at huntouched
  simp [buildAt_eq, hdeleted, huntouched, hreference]

theorem item_eq_record_iff {w : Working Draft} {k : Key} {d : Draft} :
    w.item k = .record d ↔ ∃ es, w = .modelMap es ∧ Keyed.find? k es = some d := by
  cases w with
  | keySet ms => by_cases hk : k ∈ ms <;> simp [Working.item, hk]
  | valueMap es => cases hfind : Keyed.find? k es <;> simp [Working.item, hfind]
  | modelMap es => cases hfind : Keyed.find? k es <;> simp [Working.item, hfind]
  | _ => simp [Working.item]

/-- A record in a map that nothing has been done to is frozen to its reference. -/
theorem item_freezeSlot_of_untouched {kind : FieldKind} {s : Slot Snapshot Draft}
    (hs : SlotCoheres models kind s) {k : Key} {d : Draft} {r : Snapshot}
    (hitem : s.working.item k = .record d) (huntouched : d.isTouched = false)
    (hdeleted : d.isDeleted = false) (hreference : d.reference = some r) (stamp : Nat)
    (path : List Nat) : (freezeSlot stamp path s).item k = .record r := by
  obtain ⟨es, hw, hfind⟩ := item_eq_record_iff.1 hitem
  cases s with
  | deferred v =>
      cases v with
      | modelMap o ts =>
          obtain rfl : ts.map (fun t => (t.1, t.2.edit)) = es := Working.modelMap.inj hw
          rw [Keyed.find?_map] at hfind
          obtain ⟨t, ht, rfl⟩ := Option.map_eq_some_iff.1 hfind
          obtain rfl : t = r := Option.some.inj hreference
          rw [freezeSlot, Value.item, ht]
          rfl
      | _ => simp [Slot.working, Value.materialise] at hw
  | touched w =>
      obtain rfl : w = .modelMap es := hw
      obtain ⟨l, m, rfl⟩ := kind_of_modelMap hs
      obtain ⟨_, ⟨⟩, hes, -⟩ := workingCoheres_modelMap.1 hs
      obtain ⟨j, hj⟩ := find?_freezeEntries hes stamp path 0 k
      rw [hfind, Option.bind_some, buildAt_of_untouched huntouched hdeleted hreference] at hj
      rw [freezeSlot, freeze, Value.item, hj]
      rfl

/-- A slot whose working copy holds the same under a key keeps what is there. -/
theorem keeps_of_item_eq {kind : FieldKind} {s s' : Slot Snapshot Draft}
    (hs : SlotCoheres models kind s) (hs' : SlotCoheres models kind s') {k : Key}
    (h : s'.working.item k = s.working.item k) : s.Keeps k s' where
  item_eq := h
  content_eq stamp path stamp' path' := by
    rw [item_freezeSlot hs', item_freezeSlot hs, h]
  reference_eq d r hitem huntouched hdeleted hreference stamp path :=
    ⟨item_freezeSlot_of_untouched hs hitem huntouched hdeleted hreference stamp path,
      item_freezeSlot_of_untouched hs' (h.trans hitem) huntouched hdeleted hreference stamp path⟩

end Draft

/-! ### What changes of elements leave alone -/

/-- Changes of other elements make no difference to what is under a key. -/
theorem Keyed.look_foldl_of_not_mem {S C V : Type} {key : C → Key} {step : S → C → S}
    (look : S → Key → V) (act : C → V → V) (Inv : S → Prop)
    (hinv : ∀ s c, Inv s → Inv (step s c))
    (hstep : ∀ s c k, Inv s →
      look (step s c) k = if key c = k then act c (look s k) else look s k)
    {cs : List C} {s : S} (hs : Inv s) {k : Key} (hk : k ∉ cs.map key) :
    look (cs.foldl step s) k = look s k := by
  have hnone : cs.filter (fun c => key c = k) = [] := by
    refine List.filter_eq_nil_iff.2 fun c hc => ?_
    simpa using fun hck => hk (List.mem_map.2 ⟨c, hc, hck⟩)
  rw [look_foldl look act Inv hinv hstep cs s hs k, hnone]
  rfl

namespace Change

variable {models : String → Layout}

theorem item_applyPayload {kind : FieldKind} {p : Payload Change} {w : Working Draft}
    (hp : PayloadConforms models kind p) (hw : Draft.WorkingCoheres models kind w) {k : Key}
    (hk : k ∉ p.keys) : (applyPayload p w).item k = w.item k := by
  cases kind <;> cases p <;> simp only [PayloadConforms] at hp
  · obtain ⟨v, rfl, -⟩ := Draft.workingCoheres_scalar.1 hw
    rw [applyPayload]
    rfl
  · obtain ⟨v, rfl, -⟩ := Draft.workingCoheres_attached.1 hw
    rw [applyPayload]
    rfl
  · obtain ⟨d, rfl, -⟩ := Draft.workingCoheres_nested.1 hw
    rw [applyPayload_nested]
    rfl
  · next l cs =>
    obtain ⟨ms, rfl, -⟩ := Draft.workingCoheres_keySet.1 hw
    have hmem : (k ∈ MemberChange.applyAll cs ms) = (k ∈ ms) :=
      Keyed.look_foldl_of_not_mem (fun s k => k ∈ s)
        (fun (c : MemberChange) _ => c.intent ≠ .delete) (fun _ => True) (fun _ _ _ => trivial)
        (fun s c k _ => MemberChange.mem_applyTo c s k) trivial hk
    simp only [applyPayload, Working.item, hmem]
  · next l t cs =>
    obtain ⟨es, rfl, hes, -⟩ := Draft.workingCoheres_valueMap.1 hw
    have hfind : Keyed.find? k (EntryChange.applyAll cs es) = Keyed.find? k es :=
      Keyed.look_foldl_of_not_mem (fun m k => Keyed.find? k m) EntryChange.act Keyed.Ascending
        (fun _ c hm => EntryChange.ascending_applyTo c hm)
        (fun _ c k hm => EntryChange.find?_applyTo c hm k) hes hk
    simp only [applyPayload, Working.item, hfind]
  · next l m cs =>
    obtain ⟨es, rfl, hes, -⟩ := Draft.workingCoheres_modelMap.1 hw
    have hfind : Keyed.find? k (applyEntries cs es) = Keyed.find? k es := by
      rw [RecordEntryChange.applyEntries_eq_foldl]
      exact Keyed.look_foldl_of_not_mem (fun m k => Keyed.find? k m) RecordEntryChange.act
        Keyed.Ascending (fun _ c hm => RecordEntryChange.ascending_applyTo c hm)
        (fun _ c k hm => RecordEntryChange.find?_applyTo c hm k) hes hk
    simp only [applyPayload, Working.item, hfind]

/-! ### Applying spares -/

theorem spares_iff {c : Change} {d d' : Draft} :
    c.Spares d d' ↔ d'.identity = d.identity ∧ d'.reference = d.reference ∧
      d'.lastIntent = some c.intent ∧
      (c.intent ≠ .delete → FieldsSpare c.fields d.slots d'.slots) := by
  obtain ⟨layout, intent, key, fields⟩ := c
  rw [Spares]

theorem fieldsSpare_nil {ss : List (Slot Snapshot Draft)} : FieldsSpare [] [] ss ↔ ss = [] := by
  cases ss <;> simp [FieldsSpare]

/-- A field that is not carried is taken over. -/
theorem fieldsSpare_none_cons {ps : List (Option (Payload Change))} {s : Slot Snapshot Draft}
    {ss ss' : List (Slot Snapshot Draft)} :
    FieldsSpare (none :: ps) (s :: ss) ss' ↔ ∃ rest, ss' = s :: rest ∧ FieldsSpare ps ss rest := by
  cases ss' with
  | nil => simp [FieldsSpare]
  | cons s' ss' => simp [FieldsSpare, and_assoc]

/-- A field that is carried keeps what is not named. -/
theorem fieldsSpare_some_cons {p : Payload Change} {ps : List (Option (Payload Change))}
    {s : Slot Snapshot Draft} {ss ss' : List (Slot Snapshot Draft)} :
    FieldsSpare (some p :: ps) (s :: ss) ss' ↔ ∃ s' rest, ss' = s' :: rest ∧
      (s'.isTouched = true ∧ (∀ k, k ∉ p.keys → s.Keeps k s') ∧
        PayloadSpares p s.working s'.working) ∧ FieldsSpare ps ss rest := by
  cases ss' with
  | nil => simp [FieldsSpare]
  | cons s' ss' => simp [FieldsSpare]

/-- Applying the change to coherent drafts of its kind of record spares them. -/
def SparesOnApplying (models : String → Layout) (c : Change) : Prop :=
  ∀ d : Draft, d.Coherent models → d.layout = c.layout → c.Spares d (c.applyTo d)

theorem entriesSpare_applyEntries {cs : List (RecordEntryChange Change)}
    (hcs : ∀ c ∈ cs, c.change.Conforms models)
    (ih : ∀ c ∈ cs, c.change.SparesOnApplying models) {es : Keyed Draft}
    (hes : Keyed.Ascending es) (hentries : ∀ e ∈ es, e.2.Coherent models) :
    EntriesSpare cs es (applyEntries cs es) := by
  rw [RecordEntryChange.applyEntries_eq_foldl]
  induction cs generalizing es with
  | nil => rw [List.foldl_nil, EntriesSpare]
  | cons c cs ihcs =>
      rw [List.forall_mem_cons] at hcs ih
      have hnext : ∀ e ∈ c.applyTo es, e.2.Coherent models := by
        intro e he
        rcases RecordEntryChange.mem_applyTo he with rfl | he
        · exact coherent_applyRecord (keepsCoherence_of_conforms hcs.1) fun d hd =>
            hentries (c.key, d) (Keyed.mem_of_find? hd)
        · exact hentries e he
      have hrest := ihcs hcs.2 ih.2 (RecordEntryChange.ascending_applyTo c hes) hnext
      have hother : ∀ k, k ≠ c.key → Keyed.find? k (c.applyTo es) = Keyed.find? k es :=
        fun k hk => by rw [RecordEntryChange.find?_applyTo c hes, if_neg (Ne.symm hk)]
      have hsame : ∀ d, Keyed.find? c.key es = some d → c.intent ≠ .delete →
          c.change.intent ≠ .add → d.identity = c.change.identity →
          ∃ d', Keyed.find? c.key (c.applyTo es) = some d' ∧ c.change.Spares d d' := by
        intro d hd hdelete hadd hidentity
        refine ⟨c.change.applyTo d, ?_, ?_⟩
        · rw [RecordEntryChange.find?_applyTo c hes, if_pos rfl, RecordEntryChange.act,
            if_neg hdelete, hd, applyRecord_of_held hadd hidentity]
        · exact ih.1 d (hentries (c.key, d) (Keyed.mem_of_find? hd))
            (congrArg Identity.layout hidentity)
      obtain ⟨intent, key, c⟩ := c
      rw [List.foldl_cons, EntriesSpare]
      exact ⟨_, hother, hsame, hrest⟩

theorem payloadSpares_applyPayload {kind : FieldKind} {p : Payload Change}
    (hp : PayloadConforms models kind p)
    (ih : ∀ c ∈ p.changes, c.Conforms models → c.SparesOnApplying models) {w : Working Draft}
    (hw : Draft.WorkingCoheres models kind w) : PayloadSpares p w (applyPayload p w) := by
  cases kind <;> cases p <;> simp only [PayloadConforms] at hp
  · simp [PayloadSpares]
  · simp [PayloadSpares]
  · next m c =>
    obtain ⟨d, rfl, hd⟩ := Draft.workingCoheres_nested.1 hw
    rw [PayloadSpares, applyPayload_nested]
    rintro e ⟨⟩ hadd hidentity
    refine ⟨c.applyTo e, ?_, ?_⟩
    · rw [applyRecord_of_held hadd hidentity]
    · exact ih c (by simp [Payload.changes]) hp.2 e (hd e rfl).2
        (congrArg Identity.layout hidentity)
  · simp [PayloadSpares]
  · simp [PayloadSpares]
  · next l m cs =>
    obtain ⟨es, rfl, hes, hentries⟩ := Draft.workingCoheres_modelMap.1 hw
    rw [PayloadSpares, applyPayload]
    rintro _ ⟨⟩
    have hcs := fun c hc => (entriesConform_iff.1 hp c hc).2
    refine ⟨_, rfl, entriesSpare_applyEntries hcs ?_ hes fun e he => (hentries e he).2⟩
    exact fun c hc => ih c.change (List.mem_map_of_mem hc) (hcs c hc)

theorem fieldsSpare_applyFields {kinds : List FieldKind} {ps : List (Option (Payload Change))}
    {ss : List (Slot Snapshot Draft)}
    (hps : List.Forall₂ (fun kind p => ∀ q ∈ p, PayloadConforms models kind q) kinds ps)
    (hss : List.Forall₂ (Draft.SlotCoheres models) kinds ss)
    (ih : ∀ p, some p ∈ ps → ∀ c ∈ p.changes, c.Conforms models → c.SparesOnApplying models) :
    FieldsSpare ps ss (applyFields ps ss) := by
  induction hps generalizing ss with
  | nil =>
      cases hss
      simp [applyFields, FieldsSpare]
  | @cons kind p kinds ps hp hps ihps =>
      cases hss with
      | @cons _ s _ ss hs hss =>
          have hrest := ihps hss fun q hq => ih q (List.mem_cons_of_mem _ hq)
          cases p with
          | none =>
              rw [applyFields, FieldsSpare]
              exact ⟨rfl, hrest⟩
          | some p =>
              have hpayload := hp p rfl
              have hworking := Draft.workingCoheres_working hs
              have hpatched : Draft.SlotCoheres models kind (.touched (applyPayload p s.working)) :=
                workingCoheres_applyPayload hpayload
                  (fun c _ hc => keepsCoherence_of_conforms hc) hworking
              rw [applyFields, FieldsSpare]
              refine ⟨⟨rfl, fun k hk => ?_, ?_⟩, hrest⟩
              · exact Draft.keeps_of_item_eq hs hpatched (item_applyPayload hpayload hworking hk)
              · exact payloadSpares_applyPayload hpayload (ih p (by simp)) hworking

theorem sparesOnApplying_of_conforms {c : Change} (hc : c.Conforms models) :
    c.SparesOnApplying models := by
  induction c using Change.induction with
  | step c ih =>
      intro d hd hlayout
      refine spares_iff.2 ⟨identity_applyTo c d, reference_applyTo c d, ?_, fun hdelete => ?_⟩
      · rw [applyTo_eq]
        split
        · next hdelete => exact congrArg some hdelete.symm
        · rfl
      · have hpayloads := conforms_iff.1 hc
        rw [← hlayout] at hpayloads
        rw [applyTo_eq, if_neg hdelete]
        exact fieldsSpare_applyFields hpayloads (Draft.coherent_iff.1 hd).2 ih

end Change

/-- Applying a change that is no deletion to a draft, at whatever depth it lies, changes nothing but
what the change names. -/
theorem Draft.spares_of_apply {models : String → Layout} {d e : Draft} (hd : d.Reachable models)
    (he : e.Within d) {c : Change} (hc : c.Conforms models) (hidentity : c.identity = e.identity)
    (hintent : c.intent ≠ .delete) :
    ∃ e', e.apply c = .ok e' ∧ e'.identity = e.identity ∧ e'.reference = e.reference ∧
      e'.lastIntent = some c.intent ∧ Change.FieldsSpare c.fields e.slots e'.slots := by
  have hkey : e.key = c.key := (congrArg Identity.key hidentity).symm
  have hlayout : e.layout = c.layout := (congrArg Identity.layout hidentity).symm
  have hspares := Change.sparesOnApplying_of_conforms hc e (he.coherent hd.coherent) hlayout
  obtain ⟨hframe, hreference, hlast, hfields⟩ := Change.spares_iff.1 hspares
  refine ⟨c.applyTo e, ?_, hframe, hreference, hlast, hfields hintent⟩
  rw [apply_eq, if_pos hkey]

namespace Samples

/-- A node with two nodes below it. -/
def twins : Snapshot :=
  tree 1 "root" [(.int 7, tree 2 "leaf" []), (.int 8, tree 3 "bud" [])]

theorem conforms_twins : twins.Conforms nodes := by
  refine conforms_tree ?_ ?_
  · simp [Keyed.Ascending, Key.precedes]
  · simp only [List.mem_cons, List.not_mem_nil, or_false, forall_eq_or_imp, forall_eq]
    exact ⟨⟨rfl, conforms_tree .nil (by simp)⟩, rfl, conforms_tree .nil (by simp)⟩

/-- The first of the nodes below is given another label. -/
def twigBelow : Change :=
  ⟨node, .update, .int 1, [none, some (.modelMap [⟨.update, .int 7,
    ⟨node, .update, .int 2, [some (.scalar (.key (.text "twig"))), none]⟩⟩])]⟩

theorem conforms_twigBelow : twigBelow.Conforms nodes := by
  refine Change.conforms_iff.2 (.cons (by simp) (.cons ?_ .nil))
  rintro _ ⟨⟩
  refine Change.entriesConform_iff.2 ?_
  simp only [List.mem_singleton, forall_eq]
  refine ⟨rfl, Change.conforms_iff.2 (.cons ?_ (.cons (by simp) .nil))⟩
  rintro _ ⟨⟩
  trivial

end Samples

/-- The label of the root stays deferred, the second node below is built as itself, and what is
below the first one stays deferred. -/
theorem Draft.spares_of_apply_of_twins :
    ∃ e' root below d, Samples.twins.edit.apply Samples.twigBelow = .ok e' ∧
      e'.slots = [root, below] ∧ root = .deferred (.scalar (.key (.text "root"))) ∧
      (∀ stamp path, (freezeSlot stamp path below).item (.int 8) =
        .record (Samples.tree 3 "bud" [])) ∧
      below.working.item (.int 7) = .record d ∧
      d.slots[1]? = some (.deferred (.modelMap .zero [])) := by
  obtain ⟨e', happly, -, -, -, hspare⟩ := spares_of_apply (.edit Samples.conforms_twins) (.refl _)
    Samples.conforms_twigBelow rfl (by decide)
  obtain ⟨rest, hroot, hrest⟩ := Change.fieldsSpare_none_cons.1 hspare
  obtain ⟨below, _, rfl, ⟨-, hkeeps, hpayload⟩, hnil⟩ := Change.fieldsSpare_some_cons.1 hrest
  obtain rfl := Change.fieldsSpare_nil.1 hnil
  obtain ⟨es', hbelow, hentries⟩ := hpayload _ rfl
  obtain ⟨next, -, hheld, hlast⟩ := hentries
  obtain ⟨d, hd, hspares⟩ := hheld _ rfl (by decide) (by decide) rfl
  obtain ⟨-, -, -, hfields⟩ := Change.spares_iff.1 hspares
  obtain ⟨label, _, hslots, -, hchildren⟩ := Change.fieldsSpare_some_cons.1 (hfields (by decide))
  obtain ⟨_, rfl, -⟩ := Change.fieldsSpare_none_cons.1 hchildren
  obtain rfl : es' = next := hlast
  refine ⟨e', _, below, d, happly, hroot, rfl, fun stamp path => ?_, ?_, ?_⟩
  · exact ((hkeeps (.int 8) (by decide)).reference_eq _ _ rfl rfl rfl rfl stamp path).2
  · rw [hbelow, Working.item, hd]
    rfl
  · rw [hslots]
    rfl

end VersionedRecords
