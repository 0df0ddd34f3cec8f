import VersionedRecords.Keyed
import Mathlib.Data.List.Nodup
import Mathlib.Data.Option.Basic

/-!
Lists of keyed changes as tables.

The changes that lead from one collection to another form a partial function from keys: what has
become of the thing under a key, if anything.  A list tabulates such a function when it holds its
values, each once.  Whatever is done change by change to a collection can then be read key by key,
and neither the order of the list nor the way in which it was put together matters any more.
-/

namespace VersionedRecords.Keyed

variable {α C D S V : Type}

/-- The list holds the values of the partial function, each once and under its own key. -/
structure Tabulates (key : C → Key) (f : Key → Option C) (cs : List C) : Prop where
  nodup : (cs.map key).Nodup
  mem_iff : ∀ k c, f k = some c ↔ c ∈ cs ∧ key c = k

/-- What is done to a collection change by change is done to each key by the changes of that key
alone, in their order. -/
theorem look_foldl {key : C → Key} {step : S → C → S} (look : S → Key → V) (act : C → V → V)
    (Inv : S → Prop) (hinv : ∀ s c, Inv s → Inv (step s c))
    (hstep : ∀ s c k, Inv s →
      look (step s c) k = if key c = k then act c (look s k) else look s k)
    (cs : List C) (s : S) (hs : Inv s) (k : Key) :
    look (cs.foldl step s) k =
      (cs.filter fun c => key c = k).foldl (fun v c => act c v) (look s k) := by
  induction cs generalizing s with
  | nil => rfl
  | cons c cs ih =>
      have hrest := ih (step s c) (hinv s c hs)
      rw [hstep s c k hs] at hrest
      by_cases hk : key c = k
      · simpa [hk] using hrest
      · simpa [hk] using hrest

namespace Tabulates

variable {key : C → Key} {f : Key → Option C} {cs : List C}

theorem filter_key (h : Tabulates key f cs) (k : Key) :
    cs.filter (fun c => key c = k) = (f k).toList := by
  have hsub : ((cs.filter fun c => key c = k).map key).Nodup :=
    h.nodup.sublist (List.filter_sublist.map key)
  cases hf : f k with
  | none =>
      simp only [Option.toList_none, List.filter_eq_nil_iff, decide_eq_true_eq]
      intro c hc hk
      simpa [hf] using (h.mem_iff k c).2 ⟨hc, hk⟩
  | some c =>
      obtain ⟨hc, hk⟩ := (h.mem_iff k c).1 hf
      have hmem : c ∈ cs.filter fun c => key c = k := by simp [hc, hk]
      cases hlist : cs.filter (fun c => key c = k) with
      | nil => simp [hlist] at hmem
      | cons d ds =>
          have hall : ∀ e ∈ d :: ds, key e = k := by
            intro e he
            rw [← hlist] at he
            simpa using (List.mem_filter.1 he).2
          have hds : ds = [] := by
            cases ds with
            | nil => rfl
            | cons e es =>
                rw [hlist] at hsub
                have hd := hall d (by simp)
                have he := hall e (by simp)
                simp [hd, he] at hsub
          subst hds
          rw [hlist] at hmem
          simpa using (List.mem_singleton.1 hmem).symm

/-- A list is a table if the changes of each key are what the table says about it. -/
theorem of_filter_key (h : ∀ k, cs.filter (fun c => key c = k) = (f k).toList) :
    Tabulates key f cs where
  nodup := by
    refine List.nodup_iff_count_le_one.2 fun k => ?_
    have hcount : (cs.map key).count k = (f k).toList.length := by
      rw [← h k, List.count, List.countP_map, List.countP_eq_length_filter]
      simp only [Function.comp_def, beq_eq_decide]
    rw [hcount]
    cases f k <;> simp
  mem_iff k c := by
    rw [← Option.mem_toList, ← h k, List.mem_filter, decide_eq_true_eq]

/-- Doing all the changes of a table does to each key what the table says about it. -/
theorem look_foldl (h : Tabulates key f cs) {step : S → C → S} (look : S → Key → V)
    (act : C → V → V) (Inv : S → Prop) (hinv : ∀ s c, Inv s → Inv (step s c))
    (hstep : ∀ s c k, Inv s →
      look (step s c) k = if key c = k then act c (look s k) else look s k)
    (s : S) (hs : Inv s) (k : Key) :
    look (cs.foldl step s) k = (f k).elim (look s k) fun c => act c (look s k) := by
  rw [Keyed.look_foldl look act Inv hinv hstep cs s hs k, h.filter_key k]
  cases f k <;> rfl

/-- A list with no two changes of one key is the table of what it holds. -/
theorem of_nodup (h : (cs.map key).Nodup) :
    Tabulates key (fun k => cs.find? fun c => key c = k) cs where
  nodup := h
  mem_iff k c := by
    induction cs with
    | nil => simp
    | cons d cs ih =>
        obtain ⟨hd, hrest⟩ := List.nodup_cons.1 h
        by_cases hk : key d = k
        · have hnot : ¬(c ∈ cs ∧ key c = k) := by
            rintro ⟨hc, hck⟩
            exact hd (List.mem_map.2 ⟨c, hc, hck.trans hk.symm⟩)
          simp only [List.find?_cons, hk, decide_true, Option.some.injEq, List.mem_cons]
          constructor
          · rintro rfl
            exact ⟨.inl rfl, hk⟩
          · rintro ⟨rfl | hc, hck⟩
            · rfl
            · exact absurd ⟨hc, hck⟩ hnot
        · simp only [List.find?_cons, hk, decide_false, ih hrest, List.mem_cons]
          constructor
          · rintro ⟨hc, hck⟩
            exact ⟨.inr hc, hck⟩
          · rintro ⟨rfl | hc, hck⟩
            · exact absurd hck hk
            · exact ⟨hc, hck⟩

theorem map {key' : D → Key} (g : C → D) (hg : ∀ c, key' (g c) = key c)
    (h : Tabulates key f cs) : Tabulates key' (fun k => (f k).map g) (cs.map g) where
  nodup := by
    have : key' ∘ g = key := funext hg
    simpa [this] using h.nodup
  mem_iff k d := by
    simp only [Option.map_eq_some_iff, List.mem_map, h.mem_iff]
    constructor
    · rintro ⟨c, ⟨hc, hk⟩, rfl⟩
      exact ⟨⟨c, hc, rfl⟩, (hg c).trans hk⟩
    · rintro ⟨⟨c, hc, rfl⟩, hk⟩
      exact ⟨c, ⟨hc, (hg c).symm.trans hk⟩, rfl⟩

theorem filterMap {key' : D → Key} {g : C → Option D}
    (hg : ∀ c ∈ cs, ∀ d, g c = some d → key' d = key c) (h : Tabulates key f cs) :
    Tabulates key' (fun k => (f k).bind g) (cs.filterMap g) where
  nodup := by
    refine List.pairwise_map.2 ((List.pairwise_filterMap).2 ?_)
    refine (List.pairwise_map.1 h.nodup).imp_of_mem ?_
    intro c c' hc hc' hne d hd d' hd' heq
    rw [hg c hc d hd, hg c' hc' d' hd'] at heq
    exact hne heq
  mem_iff k d := by
    simp only [Option.bind_eq_some_iff, List.mem_filterMap, h.mem_iff]
    constructor
    · rintro ⟨c, ⟨hc, hk⟩, hd⟩
      exact ⟨⟨c, hc, hd⟩, (hg c hc d hd).trans hk⟩
    · rintro ⟨⟨c, hc, hd⟩, hk⟩
      exact ⟨c, ⟨hc, (hg c hc d hd).symm.trans hk⟩, hd⟩

/-- The order of a table does not matter. -/
theorem perm (h : Tabulates key f cs) {cs' : List C} (hperm : cs'.Perm cs) :
    Tabulates key f cs' where
  nodup := (hperm.map key).nodup_iff.2 h.nodup
  mem_iff k c := by rw [h.mem_iff, hperm.mem_iff]

theorem eq_nil_iff (h : Tabulates key f cs) : cs = [] ↔ ∀ k, f k = none := by
  constructor
  · rintro rfl k
    cases hf : f k with
    | none => rfl
    | some c => simpa using ((h.mem_iff k c).1 hf).1
  · intro hnone
    cases cs with
    | nil => rfl
    | cons c cs => simpa [hnone] using (h.mem_iff (key c) c).2 ⟨by simp, rfl⟩

end Tabulates

/-! ### Maps put together from a table -/

theorem mem_iff_find? {m : Keyed α} (hm : Ascending m) (k : Key) (v : α) :
    (k, v) ∈ m ↔ find? k m = some v := by
  induction m with
  | nil => simp
  | cons e rest ih =>
      obtain ⟨l, w⟩ := e
      obtain ⟨hl, hrest⟩ := List.pairwise_cons.1 hm
      by_cases hk : l = k
      · subst hk
        have hnot : (l, v) ∉ rest := by
          intro hmem
          have := hl _ hmem
          simp [Key.precedes_irrefl] at this
        simp [find?, hnot, eq_comm]
      · have hk' : k ≠ l := Ne.symm hk
        simp [find?, hk, hk', ih hrest]

theorem has_iff {m : Keyed α} (hm : Ascending m) (k : Key) :
    has k m = true ↔ ∃ v, (k, v) ∈ m := by
  simp only [has, Option.isSome_iff_exists, mem_iff_find? hm]

theorem find?_filter {m : Keyed α} (hm : Ascending m) (p : Key × α → Bool) (k : Key) :
    find? k (m.filter p) = (find? k m).filter fun v => p (k, v) := by
  refine Option.ext fun v => ?_
  rw [← mem_iff_find? (hm.filter p), List.mem_filter, mem_iff_find? hm, Option.filter_eq_some_iff]

theorem nodup_of_ascending {m : Keyed α} (hm : Ascending m) : (m.map Prod.fst).Nodup := by
  refine List.pairwise_map.2 (hm.imp ?_)
  intro a b hab heq
  simp [heq, Key.precedes_irrefl] at hab

/-- An ascending map is the table of its own lookups. -/
theorem tabulates_of_ascending {m : Keyed α} (hm : Ascending m) :
    Tabulates Prod.fst (fun k => (find? k m).map fun v => (k, v)) m where
  nodup := nodup_of_ascending hm
  mem_iff k e := by
    obtain ⟨l, w⟩ := e
    constructor
    · intro h
      obtain ⟨v, hv, heq⟩ := Option.map_eq_some_iff.1 h
      cases heq
      exact ⟨(mem_iff_find? hm k w).2 hv, rfl⟩
    · rintro ⟨hmem, rfl⟩
      simp [(mem_iff_find? hm l w).1 hmem]

/-- The changes that lead from one map to another are a table, if those of the entries that are gone
come first and those of the entries that are there come after them. -/
theorem tabulates_append {A B : Type} {key : C → Key} {reference : Keyed A} {current : Keyed B}
    (hr : Ascending reference) (hc : Ascending current) (gone : Key × A → Option C)
    (there : Key × B → Option C) (hgone : ∀ e ∈ reference, ∀ c, gone e = some c → key c = e.1)
    (hthere : ∀ e ∈ current, ∀ c, there e = some c → key c = e.1) :
    Tabulates key
      (fun k => (find? k current).elim ((find? k reference).bind fun v => gone (k, v))
        fun v => there (k, v))
      ((reference.filter fun e => !has e.1 current).filterMap gone ++ current.filterMap there) where
  nodup := by
    have hleft := ((tabulates_of_ascending (hr.filter fun e => !has e.1 current)).filterMap
      fun e he => hgone e (List.mem_filter.1 he).1).nodup
    have hright := ((tabulates_of_ascending hc).filterMap hthere).nodup
    rw [List.map_append]
    refine List.nodup_append.2 ⟨hleft, hright, ?_⟩
    simp only [List.mem_map, List.mem_filterMap, List.mem_filter, Bool.not_eq_true']
    rintro _ ⟨c, ⟨e, ⟨her, he⟩, hec⟩, rfl⟩ _ ⟨d, ⟨e', he', hed⟩, rfl⟩ heq
    rw [hgone e her c hec, hthere e' he' d hed] at heq
    have hhas : has e.1 current = true := (has_iff hc e.1).2 ⟨e'.2, by rw [heq]; exact he'⟩
    simp [hhas] at he
  mem_iff k c := by
    have hgone' : ∀ l v c, find? l reference = some v → gone (l, v) = some c → key c = l :=
      fun l v c hv => hgone (l, v) ((mem_iff_find? hr l v).2 hv) c
    have hthere' : ∀ l v c, find? l current = some v → there (l, v) = some c → key c = l :=
      fun l v c hv => hthere (l, v) ((mem_iff_find? hc l v).2 hv) c
    simp only [List.mem_append, List.mem_filterMap, List.mem_filter, Bool.not_eq_true',
      Prod.exists, mem_iff_find? hr, mem_iff_find? hc]
    constructor
    · intro h
      cases hcur : find? k current with
      | some v =>
          simp only [hcur, Option.elim_some] at h
          exact ⟨.inr ⟨k, v, hcur, h⟩, hthere' k v c hcur h⟩
      | none =>
          simp only [hcur, Option.elim_none, Option.bind_eq_some_iff] at h
          obtain ⟨v, hv, hvc⟩ := h
          exact ⟨.inl ⟨k, v, ⟨hv, by simp [has, hcur]⟩, hvc⟩, hgone' k v c hv hvc⟩
    · rintro ⟨⟨l, v, ⟨hlr, hlc⟩, hlv⟩ | ⟨l, v, hlc, hlv⟩, hk⟩
      · have hl : l = k := (hgone' l v c hlr hlv).symm.trans hk
        subst hl
        have hnone : find? l current = none := by simpa [has] using hlc
        simp [hnone, hlr, hlv]
      · have hl : l = k := (hthere' l v c hlc hlv).symm.trans hk
        subst hl
        simp [hlc, hlv]

theorem find?_ofList {f : Key → Option (Key × α)} {es : List (Key × α)}
    (h : Tabulates Prod.fst f es) (k : Key) : find? k (ofList es) = (f k).map Prod.snd := by
  have hstep : ∀ (m : Keyed α) (e : Key × α) (k : Key), True →
      find? k (insert e.1 e.2 m) = if e.1 = k then some e.2 else find? k m :=
    fun m e k _ => find?_insert k e.1 e.2 m
  have := h.look_foldl (fun m k => find? k m) (fun e _ => some e.2) (fun _ => True)
    (fun _ _ _ => trivial) hstep [] trivial k
  rw [ofList, this]
  cases f k <;> rfl

/-- Sorting a table by key gives the same table. -/
theorem Tabulates.ofList {f : Key → Option (Key × α)} {es : List (Key × α)}
    (h : Tabulates Prod.fst f es) : Tabulates Prod.fst f (Keyed.ofList es) where
  nodup := nodup_of_ascending (ascending_ofList es)
  mem_iff k e := by
    obtain ⟨l, w⟩ := e
    rw [mem_iff_find? (ascending_ofList es), find?_ofList h]
    constructor
    · intro hf
      obtain ⟨-, hl⟩ := (h.mem_iff k (l, w)).1 hf
      dsimp only at hl
      subst hl
      exact ⟨by simp [hf], rfl⟩
    · rintro ⟨hf, rfl⟩
      obtain ⟨⟨l', w'⟩, hf', hw⟩ := Option.map_eq_some_iff.1 hf
      obtain ⟨-, hl⟩ := (h.mem_iff l (l', w')).1 hf'
      dsimp only at hl hw
      subst hl hw
      exact hf'

/-- Merging changes of different keys one by one into nothing amounts to collecting them. -/
theorem foldl_merge_eq_ofList {key : C → Key} {start : C → α} {merge : Keyed α → C → Keyed α}
    (hmerge : ∀ m c, find? (key c) m = none → merge m c = insert (key c) (start c) m)
    {cs : List C} (hcs : (cs.map key).Nodup) :
    cs.foldl merge [] = ofList (cs.map fun c => (key c, start c)) := by
  have general : ∀ (cs : List C) (m : Keyed α), (cs.map key).Nodup →
      (∀ c ∈ cs, find? (key c) m = none) →
      cs.foldl merge m =
        (cs.map fun c => (key c, start c)).foldl (fun m e => insert e.1 e.2 m) m := by
    intro cs
    induction cs with
    | nil => exact fun _ _ _ => rfl
    | cons c cs ih =>
        intro m hnodup hfresh
        obtain ⟨hc, hrest⟩ := List.nodup_cons.1 hnodup
        simp only [List.foldl_cons, List.map_cons, hmerge m c (hfresh c (by simp))]
        apply ih _ hrest
        intro d hd
        have hne : key c ≠ key d := by
          intro heq
          exact hc (List.mem_map.2 ⟨d, hd, heq.symm⟩)
        rw [find?_insert, if_neg hne]
        exact hfresh d (by simp [hd])
  exact general cs [] hcs fun _ _ => rfl

end VersionedRecords.Keyed
