import VersionedRecords.Proofs.Content
import VersionedRecords.Proofs.Tabulation
import VersionedRecords.Element.Entry

/-!
Differences of sets and of maps to plain values, key by key.

What leads from one collection to another is a table: `ofKey?` says for each key what has become of
it.  Merging the changes of a table into nothing and reading them off again sorts the table, and
applying a table does to each key what the table says about it.
-/

namespace VersionedRecords

/-- The items come in strictly ascending order of their keys. -/
def Keyed.Sorted {C : Type} (key : C → Key) (cs : List C) : Prop :=
  cs.Pairwise fun a b => (key a).precedes (key b) = true

theorem Keyed.sorted_map {C D : Type} {key : C → Key} {key' : D → Key} {g : C → D}
    (hg : ∀ c, key' (g c) = key c) {cs : List C} (h : Sorted key cs) : Sorted key' (cs.map g) := by
  refine List.pairwise_map.2 (h.imp ?_)
  intro a b hab
  rwa [hg, hg]

theorem Keyed.sorted_filterMap {C D : Type} {key : C → Key} {key' : D → Key} {g : C → Option D}
    (hg : ∀ c d, g c = some d → key' d = key c) {cs : List C} (h : Sorted key cs) :
    Sorted key' (cs.filterMap g) := by
  refine List.pairwise_filterMap.2 (h.imp ?_)
  intro a b hab c hc d hd
  rwa [hg a c hc, hg b d hd]

/-- A map that ascends already is not changed by sorting. -/
theorem Keyed.ofList_eq_self {α : Type} {es : Keyed α} (h : Ascending es) : ofList es = es := by
  refine ext_find? (ascending_ofList es) h fun k => ?_
  rw [find?_ofList (tabulates_of_ascending h)]
  cases find? k es <;> rfl

theorem KeySet.nodup_of_ascending {s : List Key} (hs : Ascending s) : s.Nodup := by
  refine hs.imp ?_
  intro a b hab heq
  simp [heq, Key.precedes_irrefl] at hab

/-- Ascending sets are determined by their members. -/
theorem KeySet.ext_mem {s t : List Key} (hs : Ascending s) (ht : Ascending t)
    (h : ∀ k, k ∈ s ↔ k ∈ t) : s = t := by
  have hperm : s.Perm t :=
    (List.perm_ext_iff_of_nodup (nodup_of_ascending hs) (nodup_of_ascending ht)).2 h
  refine hperm.eq_of_pairwise ?_ hs ht
  intro a b _ _ hab hba
  simp [Key.precedes_asymm hab] at hba

namespace MemberChange

/-- What has become of one key between two sets. -/
def ofKey? (reference current : List Key) (k : Key) : Option MemberChange :=
  if k ∈ reference then if k ∈ current then none else some ⟨.delete, k⟩
  else if k ∈ current then some ⟨.add, k⟩ else none

theorem tabulates_between {reference current : List Key} (hr : KeySet.Ascending reference)
    (hc : KeySet.Ascending current) :
    Keyed.Tabulates key (ofKey? reference current) (between reference current) where
  nodup := by
    simp only [between, List.map_append, List.map_map]
    refine List.nodup_append.2 ⟨?_, ?_, ?_⟩
    · simpa [Function.comp_def] using (KeySet.nodup_of_ascending hr).filter _
    · simpa [Function.comp_def] using (KeySet.nodup_of_ascending hc).filter _
    · intro a ha b hb
      simp only [List.mem_map, List.mem_filter, Function.comp_apply] at ha hb
      obtain ⟨x, ⟨-, hx⟩, rfl⟩ := ha
      obtain ⟨y, ⟨hy, -⟩, rfl⟩ := hb
      rintro rfl
      simp [hy] at hx
  mem_iff k c := by
    obtain ⟨i, l⟩ := c
    simp only [ofKey?, between, List.mem_append, List.mem_map, List.mem_filter,
      List.contains_eq_mem, Bool.not_eq_true', decide_eq_false_iff_not, mk.injEq]
    by_cases hkr : k ∈ reference <;> by_cases hkc : k ∈ current <;> grind

theorem ofKey?_eq_none_iff {reference current : List Key} {k : Key} :
    ofKey? reference current k = none ↔ (k ∈ reference ↔ k ∈ current) := by
  unfold ofKey?
  by_cases hr : k ∈ reference <;> by_cases hc : k ∈ current <;> simp [hr, hc]

theorem between_eq_nil_iff {reference current : List Key} (hr : KeySet.Ascending reference)
    (hc : KeySet.Ascending current) : between reference current = [] ↔ reference = current := by
  rw [(tabulates_between hr hc).eq_nil_iff]
  simp only [ofKey?_eq_none_iff]
  constructor
  · exact KeySet.ext_mem hr hc
  · rintro rfl k
    rfl

theorem mem_applyTo (c : MemberChange) (s : List Key) (k : Key) :
    (k ∈ c.applyTo s) = if c.key = k then c.intent ≠ .delete else k ∈ s := by
  apply propext
  unfold applyTo
  by_cases hdelete : c.intent = .delete
  · by_cases hk : c.key = k
    · simp [hdelete, hk, KeySet.mem_erase]
    · simp [hdelete, hk, KeySet.mem_erase, Ne.symm hk]
  · by_cases hmem : c.key ∈ s
    · by_cases hk : c.key = k
      · subst hk
        simp [hdelete, hmem]
      · simp [hdelete, hmem, hk]
    · by_cases hk : c.key = k
      · subst hk
        simp [hdelete, hmem, KeySet.mem_insert]
      · simp [hdelete, hmem, hk, KeySet.mem_insert, Ne.symm hk]

theorem ascending_applyTo (c : MemberChange) {s : List Key} (hs : KeySet.Ascending s) :
    KeySet.Ascending (c.applyTo s) := by
  unfold applyTo
  split
  · exact KeySet.ascending_erase hs c.key
  · split
    · exact hs
    · exact KeySet.ascending_insert hs c.key

theorem ascending_applyAll (cs : List MemberChange) {s : List Key} (hs : KeySet.Ascending s) :
    KeySet.Ascending (applyAll cs s) := by
  induction cs generalizing s with
  | nil => exact hs
  | cons c cs ih => exact ih (ascending_applyTo c hs)

theorem mem_applyAll {f : Key → Option MemberChange} {cs : List MemberChange}
    (h : Keyed.Tabulates key f cs) (s : List Key) (k : Key) :
    k ∈ applyAll cs s ↔ (f k).elim (k ∈ s) fun c => c.intent ≠ .delete := by
  have := h.look_foldl (fun s k => k ∈ s) (fun c _ => c.intent ≠ .delete) (fun _ => True)
    (fun _ _ _ => trivial) (fun s c k _ => mem_applyTo c s k) s trivial k
  rw [applyAll, this]

/-- Merging changes of different members into nothing amounts to collecting them. -/
theorem mergeAll_nil {cs : List MemberChange} (hcs : (cs.map key).Nodup) :
    mergeAll cs [] = collect cs := by
  refine Keyed.foldl_merge_eq_ofList ?_ hcs
  intro m c hfresh
  simp [mergeInto, hfresh]

theorem sorted_settle {pending : Keyed IntentState} (h : Keyed.Ascending pending) :
    Keyed.Sorted key (settle pending) :=
  Keyed.sorted_map (fun _ => rfl) h

/-- Collecting a table and reading it off again gives the same table. -/
theorem tabulates_settle_collect {f : Key → Option MemberChange} {cs : List MemberChange}
    (h : Keyed.Tabulates key f cs) : Keyed.Tabulates key f (settle (collect cs)) := by
  have hsorted := (h.map (fun c : MemberChange => (c.key, IntentState.start c.intent))
    fun _ => rfl).ofList
  have hread : Keyed.Tabulates key _ (settle (collect cs)) :=
    hsorted.map (fun e : Key × IntentState => (⟨e.2.current, e.1⟩ : MemberChange)) fun _ => rfl
  have hid : (fun k => ((f k).map fun c => (c.key, IntentState.start c.intent)).map
      fun e => (⟨e.2.current, e.1⟩ : MemberChange)) = f := by
    funext k
    cases f k <;> rfl
  rwa [hid] at hread

/-- A sorted list of changes is not changed by collecting. -/
theorem settle_collect_of_sorted {cs : List MemberChange} (h : Keyed.Sorted key cs) :
    settle (collect cs) = cs := by
  have hmap : Keyed.Ascending (cs.map fun c => (c.key, IntentState.start c.intent)) :=
    Keyed.sorted_map (fun _ => rfl) h
  rw [settle, collect, Keyed.ofList_eq_self hmap, List.map_map]
  exact List.map_id cs

/-- Applying what leads from one set to another gives the latter exactly if the set it is applied to
agrees with the latter wherever the former does. -/
theorem applyAll_between_eq_iff {reference stored current : List Key}
    (hr : KeySet.Ascending reference) (hs : KeySet.Ascending stored)
    (hc : KeySet.Ascending current) :
    applyAll (settle (collect (between reference current))) stored = current ↔
      ∀ k, (k ∈ reference ↔ k ∈ current) → (k ∈ stored ↔ k ∈ current) := by
  have htable := tabulates_settle_collect (tabulates_between hr hc)
  have hkey : ∀ k, (k ∈ applyAll (settle (collect (between reference current))) stored ↔
      k ∈ current) ↔ ((k ∈ reference ↔ k ∈ current) → (k ∈ stored ↔ k ∈ current)) := by
    intro k
    rw [mem_applyAll htable]
    unfold ofKey?
    by_cases hkr : k ∈ reference <;> by_cases hkc : k ∈ current <;> simp [hkr, hkc]
  rw [← forall_congr' hkey]
  constructor
  · intro h k
    rw [h]
  · exact KeySet.ext_mem (ascending_applyAll _ hs) hc

end MemberChange

namespace EntryChange

/-- What has become of one key between two maps. -/
def ofKey? (reference current : Keyed Datum) (k : Key) : Option EntryChange :=
  (Keyed.find? k current).elim
    ((Keyed.find? k reference).bind fun _ => some ⟨.delete, k, none⟩)
    fun v => ofPair? reference (k, v)

theorem key_of_ofPair? {reference : Keyed Datum} (e : Key × Datum) (c : EntryChange)
    (h : ofPair? reference e = some c) : c.key = e.1 := by
  unfold ofPair? at h
  split at h
  · cases h
    rfl
  · split at h
    · cases h
    · cases h
      rfl

theorem tabulates_between {reference current : Keyed Datum} (hr : Keyed.Ascending reference)
    (hc : Keyed.Ascending current) :
    Keyed.Tabulates key (ofKey? reference current) (between reference current) := by
  have hgone : ∀ e ∈ reference, ∀ c : EntryChange,
      some ⟨.delete, e.1, none⟩ = some c → c.key = e.1 := by
    rintro e - _ ⟨⟩
    rfl
  have htable := Keyed.tabulates_append hr hc (fun e => some (⟨.delete, e.1, none⟩ : EntryChange))
    (ofPair? reference) hgone fun e _ => key_of_ofPair? e
  rw [List.filterMap_eq_map'] at htable
  exact htable

theorem ofKey?_eq_none_iff {reference current : Keyed Datum} {k : Key}
    (hr : ∀ v, Keyed.find? k reference = some v → v.isPlain = true)
    (hc : ∀ v, Keyed.find? k current = some v → v.isPlain = true) :
    ofKey? reference current k = none ↔ Keyed.find? k reference = Keyed.find? k current := by
  unfold ofKey? ofPair?
  cases hcurrent : Keyed.find? k current with
  | none => cases hreference : Keyed.find? k reference <;> simp
  | some w =>
      cases hreference : Keyed.find? k reference with
      | none => simp [hreference]
      | some v => simp [hreference, Datum.same_iff_eq (hr v hreference) (hc w hcurrent)]

theorem find?_of_ofKey? {reference current : Keyed Datum} {k : Key} {c : EntryChange}
    (h : ofKey? reference current k = some c) {w : Datum} (hw : w ∈ c.value) :
    Keyed.find? k current = some w := by
  unfold ofKey? ofPair? at h
  cases hcurrent : Keyed.find? k current with
  | none =>
      cases hreference : Keyed.find? k reference with
      | none => simp [hcurrent, hreference] at h
      | some v =>
          simp only [hcurrent, hreference, Option.elim_none, Option.bind_some,
            Option.some.injEq] at h
          subst h
          cases hw
  | some v =>
      simp only [hcurrent, Option.elim_some] at h
      split at h
      · cases h
        exact hw
      · split at h
        · cases h
        · cases h
          exact hw

theorem between_eq_nil_iff {reference current : Keyed Datum} (hr : Keyed.Ascending reference)
    (hc : Keyed.Ascending current) (hrp : ∀ e ∈ reference, e.2.isPlain = true)
    (hcp : ∀ e ∈ current, e.2.isPlain = true) :
    between reference current = [] ↔ reference = current := by
  have hkey : ∀ k, ofKey? reference current k = none ↔
      Keyed.find? k reference = Keyed.find? k current := fun k =>
    ofKey?_eq_none_iff (fun v hv => hrp (k, v) ((Keyed.mem_iff_find? hr k v).2 hv))
      fun v hv => hcp (k, v) ((Keyed.mem_iff_find? hc k v).2 hv)
  rw [(tabulates_between hr hc).eq_nil_iff]
  simp only [hkey]
  constructor
  · exact Keyed.ext_find? hr hc
  · rintro rfl k
    rfl

/-- What a change makes of the value under its key. -/
def act (c : EntryChange) (v : Option Datum) : Option Datum :=
  if c.intent = .delete then none
  else match c.value with
    | none => v
    | some w => if Datum.sameOption v (some w) then v else some w

theorem act_some {i : Intent} {k : Key} {w : Datum} {v : Option Datum} (hi : i ≠ .delete)
    (hw : w.isPlain = true) (hv : ∀ x ∈ v, x.isPlain = true) : act ⟨i, k, some w⟩ v = some w := by
  have hsame := Datum.sameOption_iff_eq hv (b := some w) fun x hx => by cases hx; exact hw
  unfold act
  rw [if_neg hi]
  dsimp only
  split
  · next h => exact hsame.1 h
  · rfl

theorem find?_applyTo (c : EntryChange) {m : Keyed Datum} (hm : Keyed.Ascending m) (k : Key) :
    Keyed.find? k (c.applyTo m) =
      if c.key = k then c.act (Keyed.find? k m) else Keyed.find? k m := by
  unfold applyTo act
  by_cases hdelete : c.intent = .delete
  · simp [hdelete, Keyed.find?_erase hm]
  · cases hvalue : c.value with
    | none => simp [hdelete]
    | some w =>
        by_cases hk : c.key = k
        · subst hk
          by_cases hsame : Datum.sameOption (Keyed.find? c.key m) (some w) = true
          · simp [hdelete, hsame]
          · simp [hdelete, hsame, Keyed.find?_insert]
        · by_cases hsame : Datum.sameOption (Keyed.find? c.key m) (some w) = true
          · simp [hdelete, hsame, hk]
          · simp [hdelete, hsame, hk, Keyed.find?_insert]

theorem ascending_applyTo (c : EntryChange) {m : Keyed Datum} (hm : Keyed.Ascending m) :
    Keyed.Ascending (c.applyTo m) := by
  unfold applyTo
  split
  · exact Keyed.ascending_erase hm c.key
  · cases c.value with
    | none => exact hm
    | some w =>
        dsimp only
        split
        · exact hm
        · exact Keyed.ascending_insert hm c.key w

theorem ascending_applyAll (cs : List EntryChange) {m : Keyed Datum} (hm : Keyed.Ascending m) :
    Keyed.Ascending (applyAll cs m) := by
  induction cs generalizing m with
  | nil => exact hm
  | cons c cs ih => exact ih (ascending_applyTo c hm)

theorem mem_applyTo {c : EntryChange} {m : Keyed Datum} {e : Key × Datum} (h : e ∈ c.applyTo m) :
    e ∈ m ∨ e.2 ∈ c.value := by
  unfold applyTo at h
  split at h
  · exact .inl ((Keyed.erase_sublist c.key m).subset h)
  · cases hvalue : c.value with
    | none =>
        rw [hvalue] at h
        exact .inl h
    | some w =>
        simp only [hvalue] at h
        split at h
        · exact .inl h
        · rcases Keyed.mem_insert h with rfl | h
          · exact .inr rfl
          · exact .inl h

theorem mem_applyAll {cs : List EntryChange} {m : Keyed Datum} {e : Key × Datum}
    (h : e ∈ applyAll cs m) : e ∈ m ∨ ∃ c ∈ cs, e.2 ∈ c.value := by
  induction cs generalizing m with
  | nil => exact .inl h
  | cons c cs ih =>
      rcases ih h with h | ⟨d, hd, hv⟩
      · rcases mem_applyTo h with h | hv
        · exact .inl h
        · exact .inr ⟨c, by simp, hv⟩
      · exact .inr ⟨d, List.mem_cons_of_mem _ hd, hv⟩

theorem find?_applyAll {f : Key → Option EntryChange} {cs : List EntryChange}
    (h : Keyed.Tabulates key f cs) {m : Keyed Datum} (hm : Keyed.Ascending m) (k : Key) :
    Keyed.find? k (applyAll cs m) =
      (f k).elim (Keyed.find? k m) fun c => c.act (Keyed.find? k m) :=
  h.look_foldl (fun m k => Keyed.find? k m) act Keyed.Ascending
    (fun _ c hs => ascending_applyTo c hs) (fun _ c k hs => find?_applyTo c hs k) m hm k

/-- Merging changes of different entries into nothing amounts to collecting them. -/
theorem mergeAll_nil {cs : List EntryChange} (hcs : (cs.map key).Nodup) :
    mergeAll cs [] = collect cs := by
  refine Keyed.foldl_merge_eq_ofList ?_ hcs
  intro m c hfresh
  simp [mergeInto, hfresh]

theorem sorted_settle {pending : Keyed EntryState} (h : Keyed.Ascending pending) :
    Keyed.Sorted key (settle pending) :=
  Keyed.sorted_map (fun _ => rfl) h

/-- Collecting a table and reading it off again gives the same table. -/
theorem tabulates_settle_collect {f : Key → Option EntryChange} {cs : List EntryChange}
    (h : Keyed.Tabulates key f cs) : Keyed.Tabulates key f (settle (collect cs)) := by
  have hsorted := (h.map (fun c : EntryChange => (c.key, EntryState.start c)) fun _ => rfl).ofList
  have hread : Keyed.Tabulates key _ (settle (collect cs)) :=
    hsorted.map (fun e : Key × EntryState => e.2.build e.1) fun _ => rfl
  have hid : (fun k => ((f k).map fun c => (c.key, EntryState.start c)).map
      fun e => e.2.build e.1) = f := by
    funext k
    cases f k <;> rfl
  rwa [hid] at hread

/-- A sorted list of changes is not changed by collecting. -/
theorem settle_collect_of_sorted {cs : List EntryChange} (h : Keyed.Sorted key cs) :
    settle (collect cs) = cs := by
  have hmap : Keyed.Ascending (cs.map fun c => (c.key, EntryState.start c)) :=
    Keyed.sorted_map (fun _ => rfl) h
  rw [settle, collect, Keyed.ofList_eq_self hmap, List.map_map]
  exact List.map_id cs

/-- Applying what leads from one map to another gives the latter exactly if the map it is applied to
agrees with the latter wherever the former does. -/
theorem applyAll_between_eq_iff {reference stored current : Keyed Datum}
    (hr : Keyed.Ascending reference) (hs : Keyed.Ascending stored) (hc : Keyed.Ascending current)
    (hrp : ∀ e ∈ reference, e.2.isPlain = true) (hsp : ∀ e ∈ stored, e.2.isPlain = true)
    (hcp : ∀ e ∈ current, e.2.isPlain = true) :
    applyAll (settle (collect (between reference current))) stored = current ↔
      ∀ k, Keyed.find? k reference = Keyed.find? k current →
        Keyed.find? k stored = Keyed.find? k current := by
  have htable := tabulates_settle_collect (tabulates_between hr hc)
  have hplain : ∀ {m : Keyed Datum}, Keyed.Ascending m → (∀ e ∈ m, e.2.isPlain = true) →
      ∀ k v, Keyed.find? k m = some v → v.isPlain = true :=
    fun hm h k v hv => h (k, v) ((Keyed.mem_iff_find? hm k v).2 hv)
  have hkey : ∀ k, Keyed.find? k (applyAll (settle (collect (between reference current))) stored) =
      Keyed.find? k current ↔ (Keyed.find? k reference = Keyed.find? k current →
        Keyed.find? k stored = Keyed.find? k current) := by
    intro k
    rw [find?_applyAll htable hs]
    unfold ofKey? ofPair?
    cases hcurrent : Keyed.find? k current with
    | none =>
        cases hreference : Keyed.find? k reference with
        | none => simp
        | some v => simp [act]
    | some w =>
        have hw := hplain hc hcp k w hcurrent
        have hact : ∀ i : Intent, i ≠ .delete →
            act ⟨i, k, some w⟩ (Keyed.find? k stored) = some w :=
          fun _ hi => act_some hi hw (hplain hs hsp k)
        cases hreference : Keyed.find? k reference with
        | none => simp [hreference, hact]
        | some v =>
            have hvw := Datum.same_iff_eq (hplain hr hrp k v hreference) hw
            by_cases heq : v = w
            · subst heq
              have hsame : v.same v = true := hvw.2 rfl
              simp [hreference, hsame]
            · simp [hreference, hvw, heq, hact]
  rw [← forall_congr' hkey]
  constructor
  · intro h k
    rw [h]
  · exact Keyed.ext_find? (ascending_applyAll _ hs) hc

end EntryChange

end VersionedRecords
