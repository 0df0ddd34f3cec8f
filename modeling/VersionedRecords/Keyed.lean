import VersionedRecords.Key

/-!
Maps and sets by key, as lists in ascending key order.  `Keyed α` is a map, a plain `List Key` a
set.  A list that ascends strictly holds each key at most once, so lookup determines it: two
ascending maps with the same lookups are equal.
-/

namespace VersionedRecords

/-- A map from keys: its entries, in ascending order of their keys. -/
abbrev Keyed (α : Type) := List (Key × α)

namespace Keyed

variable {α β : Type}

/-- The value under a key. -/
def find? (k : Key) : Keyed α → Option α
  | [] => none
  | (k', v) :: rest => if k' = k then some v else find? k rest

/-- Whether a key has an entry. -/
def has (k : Key) (m : Keyed α) : Bool := (find? k m).isSome

/-- The map with `v` under `k`, whatever was there before. -/
def insert (k : Key) (v : α) : Keyed α → Keyed α
  | [] => [(k, v)]
  | (k', v') :: rest =>
    if k' = k then (k, v) :: rest
    else if k.precedes k' then (k, v) :: (k', v') :: rest
    else (k', v') :: insert k v rest

/-- The map without an entry under `k`. -/
def erase (k : Key) : Keyed α → Keyed α
  | [] => []
  | (k', v') :: rest => if k' = k then rest else (k', v') :: erase k rest

/-- The map of a list of entries in any order; the last of several entries for one key counts. -/
def ofList (entries : List (Key × α)) : Keyed α :=
  entries.foldl (fun m e => insert e.1 e.2 m) []

/-- Every key comes strictly before all later ones. -/
def Ascending (m : Keyed α) : Prop := m.Pairwise fun a b => a.1.precedes b.1 = true

@[simp] theorem find?_nil (k : Key) : find? k ([] : Keyed α) = none := rfl

theorem find?_insert (k k' : Key) (v : α) (m : Keyed α) :
    find? k (insert k' v m) = if k' = k then some v else find? k m := by
  induction m with
  | nil => simp [insert, find?]
  | cons e rest ih =>
    obtain ⟨l, w⟩ := e
    simp only [insert]
    split
    · next h => subst h; simp only [find?]; split <;> rfl
    · split
      · simp only [find?]
      · next h _ =>
        simp only [find?, ih]
        split
        · next hl => subst hl; rw [if_neg (Ne.symm h)]
        · rfl

theorem mem_of_find? {k : Key} {v : α} {m : Keyed α} (h : find? k m = some v) : (k, v) ∈ m := by
  induction m with
  | nil => simp at h
  | cons e rest ih =>
    obtain ⟨l, w⟩ := e
    simp only [find?] at h
    split at h
    · next hl => simp_all
    · exact List.mem_cons_of_mem _ (ih h)

theorem find?_eq_none_of_precedes {k : Key} {m : Keyed α}
    (h : ∀ e ∈ m, k.precedes e.1 = true) : find? k m = none := by
  induction m with
  | nil => rfl
  | cons e rest ih =>
    obtain ⟨l, w⟩ := e
    have hl : l ≠ k := by
      rintro rfl
      have := h (l, w) (by simp)
      simp [Key.precedes_irrefl] at this
    simp only [find?, if_neg hl]
    exact ih fun e he => h e (by simp [he])

theorem find?_erase {m : Keyed α} (hm : Ascending m) (k k' : Key) :
    find? k (erase k' m) = if k' = k then none else find? k m := by
  induction m with
  | nil => simp [erase]
  | cons e rest ih =>
    obtain ⟨l, w⟩ := e
    obtain ⟨hl, hrest⟩ := List.pairwise_cons.1 hm
    simp only [erase]
    split
    · next h =>
      subst h
      split
      · next h => subst h; exact find?_eq_none_of_precedes hl
      · next h => simp only [find?, if_neg h]
    · next h =>
      simp only [find?, ih hrest]
      split
      · next h' => subst h'; rw [if_neg (Ne.symm h)]
      · rfl

theorem mem_insert {e : Key × α} {k : Key} {v : α} {m : Keyed α} (h : e ∈ insert k v m) :
    e = (k, v) ∨ e ∈ m := by
  induction m with
  | nil => simpa [insert] using h
  | cons d rest ih =>
    obtain ⟨l, w⟩ := d
    simp only [insert] at h
    split at h
    · rcases List.mem_cons.1 h with h | h <;> simp [h]
    · split at h
      · rcases List.mem_cons.1 h with h | h <;> simp [h]
      · rcases List.mem_cons.1 h with h | h
        · simp [h]
        · rcases ih h with h | h <;> simp [h]

theorem ascending_insert {m : Keyed α} (hm : Ascending m) (k : Key) (v : α) :
    Ascending (insert k v m) := by
  induction m with
  | nil => simp [insert, Ascending]
  | cons e rest ih =>
    obtain ⟨l, w⟩ := e
    obtain ⟨hl, hrest⟩ := List.pairwise_cons.1 hm
    simp only [insert]
    split
    · next h => subst h; exact List.pairwise_cons.2 ⟨hl, hrest⟩
    · split
      · next h =>
        refine List.pairwise_cons.2 ⟨?_, hm⟩
        intro d hd
        rcases List.mem_cons.1 hd with rfl | hd
        · exact h
        · exact Key.precedes_trans h (hl d hd)
      · next h h' =>
        refine List.pairwise_cons.2 ⟨?_, ih hrest⟩
        intro d hd
        rcases mem_insert hd with rfl | hd
        · exact (Key.precedes_total h).resolve_right h'
        · exact hl d hd

theorem erase_sublist (k : Key) (m : Keyed α) : (erase k m).Sublist m := by
  induction m with
  | nil => exact List.Sublist.slnil
  | cons e rest ih =>
    obtain ⟨l, w⟩ := e
    simp only [erase]
    split
    · exact List.sublist_cons_self _ _
    · exact ih.cons_cons _

theorem ascending_erase {m : Keyed α} (hm : Ascending m) (k : Key) : Ascending (erase k m) :=
  hm.sublist (erase_sublist k m)

theorem ascending_ofList (entries : List (Key × α)) : Ascending (ofList entries) := by
  have : ∀ (es : List (Key × α)) (m : Keyed α), Ascending m →
      Ascending (es.foldl (fun m e => insert e.1 e.2 m) m) := by
    intro es
    induction es with
    | nil => exact fun _ h => h
    | cons e es ih => exact fun m h => ih _ (ascending_insert h e.1 e.2)
  exact this entries [] List.Pairwise.nil

/-- Ascending maps are determined by their lookups. -/
theorem ext_find? {m m' : Keyed α} (hm : Ascending m) (hm' : Ascending m')
    (h : ∀ k, find? k m = find? k m') : m = m' := by
  induction m generalizing m' with
  | nil =>
    cases m' with
    | nil => rfl
    | cons e rest =>
      obtain ⟨l, w⟩ := e
      simpa [find?] using h l
  | cons e rest ih =>
    obtain ⟨l, w⟩ := e
    obtain ⟨hl, hrest⟩ := List.pairwise_cons.1 hm
    cases m' with
    | nil => simpa [find?] using h l
    | cons e' rest' =>
      obtain ⟨l', w'⟩ := e'
      obtain ⟨hl', hrest'⟩ := List.pairwise_cons.1 hm'
      have hll : l = l' := by
        by_cases heq : l = l'
        · exact heq
        · rcases Key.precedes_total heq with hlt | hlt
          · have := h l
            rw [find?_eq_none_of_precedes (m := (l', w') :: rest')] at this
            · simp [find?] at this
            · intro d hd
              rcases List.mem_cons.1 hd with rfl | hd
              · exact hlt
              · exact Key.precedes_trans hlt (hl' d hd)
          · have := h l'
            rw [find?_eq_none_of_precedes (m := (l, w) :: rest)] at this
            · simp [find?] at this
            · intro d hd
              rcases List.mem_cons.1 hd with rfl | hd
              · exact hlt
              · exact Key.precedes_trans hlt (hl d hd)
      subst hll
      have hw : w = w' := by simpa [find?] using h l
      subst hw
      congr 1
      refine ih hrest hrest' fun k => ?_
      by_cases hk : l = k
      · subst hk
        rw [find?_eq_none_of_precedes hl, find?_eq_none_of_precedes hl']
      · simpa [find?, hk] using h k

/-! ### Replacing values -/

theorem find?_map (g : α → β) (k : Key) (m : Keyed α) :
    find? k (m.map fun e => (e.1, g e.2)) = (find? k m).map g := by
  induction m with
  | nil => rfl
  | cons e rest ih =>
    obtain ⟨l, v⟩ := e
    by_cases hk : l = k
    · simp [find?, hk]
    · simp [find?, hk, ih]

theorem has_map (g : α → β) (k : Key) (m : Keyed α) :
    has k (m.map fun e => (e.1, g e.2)) = has k m := by
  rw [has, find?_map, Option.isSome_map, has]

theorem map_insert (g : α → β) (k : Key) (v : α) (m : Keyed α) :
    (insert k v m).map (fun e => (e.1, g e.2)) = insert k (g v) (m.map fun e => (e.1, g e.2)) := by
  induction m with
  | nil => rfl
  | cons e rest ih =>
    obtain ⟨l, w⟩ := e
    simp only [insert, List.map_cons]
    split
    · rfl
    · split
      · rfl
      · rw [List.map_cons, ih]

theorem map_erase (g : α → β) (k : Key) (m : Keyed α) :
    (erase k m).map (fun e => (e.1, g e.2)) = erase k (m.map fun e => (e.1, g e.2)) := by
  induction m with
  | nil => rfl
  | cons e rest ih =>
    obtain ⟨l, w⟩ := e
    simp only [erase, List.map_cons]
    split
    · rfl
    · rw [List.map_cons, ih]

end Keyed

namespace KeySet

/-- The set with a further member. -/
def insert (k : Key) : List Key → List Key
  | [] => [k]
  | k' :: rest =>
    if k' = k then k :: rest
    else if k.precedes k' then k :: k' :: rest
    else k' :: insert k rest

/-- The set without a member. -/
def erase (k : Key) (s : List Key) : List Key := s.filter fun k' => k' != k

/-- The set of a list of members in any order. -/
def ofList (members : List Key) : List Key := members.foldl (fun s k => insert k s) []

/-- Every member comes strictly before all later ones. -/
def Ascending (s : List Key) : Prop := s.Pairwise fun a b => a.precedes b = true

theorem mem_insert {x k : Key} {s : List Key} : x ∈ insert k s ↔ x = k ∨ x ∈ s := by
  induction s with
  | nil => simp [insert]
  | cons k' rest ih =>
    simp only [insert]
    split
    · next h => subst h; simp
    · split
      · simp
      · simp only [List.mem_cons, ih]
        constructor
        · rintro (h | h | h) <;> simp [h]
        · rintro (h | h | h) <;> simp [h]

theorem mem_erase {x k : Key} {s : List Key} : x ∈ erase k s ↔ x ≠ k ∧ x ∈ s := by
  simp [erase, and_comm]

theorem ascending_insert {s : List Key} (hs : Ascending s) (k : Key) : Ascending (insert k s) := by
  induction s with
  | nil => simp [insert, Ascending]
  | cons k' rest ih =>
    obtain ⟨hk, hrest⟩ := List.pairwise_cons.1 hs
    simp only [insert]
    split
    · next h => subst h; exact hs
    · split
      · next h =>
        refine List.pairwise_cons.2 ⟨?_, hs⟩
        intro d hd
        rcases List.mem_cons.1 hd with rfl | hd
        · exact h
        · exact Key.precedes_trans h (hk d hd)
      · next h h' =>
        refine List.pairwise_cons.2 ⟨?_, ih hrest⟩
        intro d hd
        rcases mem_insert.1 hd with rfl | hd
        · exact (Key.precedes_total h).resolve_right h'
        · exact hk d hd

theorem ascending_erase {s : List Key} (hs : Ascending s) (k : Key) : Ascending (erase k s) :=
  hs.filter _

end KeySet

end VersionedRecords
