import Mathlib.Data.List.Forall2

/-!
Lists side by side.

The values of a record stand beside the kinds of its layout, the slots of a draft beside the values
of its reference, and what a comparison finds beside both.
-/

namespace VersionedRecords

/-- What is paired up with one list is paired with something of the other. -/
theorem exists_of_mem_right {α β : Type} {R : α → β → Prop} {as : List α} {bs : List β}
    (h : List.Forall₂ R as bs) {b : β} (hb : b ∈ bs) : ∃ a ∈ as, R a b := by
  induction h with
  | nil => simp at hb
  | cons hab hrest ih =>
      rcases List.mem_cons.1 hb with rfl | hb
      · exact ⟨_, by simp, hab⟩
      · obtain ⟨a, ha, hR⟩ := ih hb
        exact ⟨a, List.mem_cons_of_mem _ ha, hR⟩

theorem exists_of_mem_zipWith {α β γ : Type} {f : α → β → γ} {as : List α} {bs : List β} {c : γ}
    (hc : c ∈ List.zipWith f as bs) : ∃ a ∈ as, ∃ b ∈ bs, f a b = c := by
  obtain ⟨i, hi⟩ := List.mem_iff_getElem?.1 hc
  obtain ⟨a, b, ha, hb, hab⟩ := List.getElem?_zipWith_eq_some.1 hi
  exact ⟨a, List.mem_of_getElem? ha, b, List.mem_of_getElem? hb, hab⟩

/-- What is paired up with a list is paired up with whatever that list is paired up with. -/
theorem forall₂_trans {α β γ : Type} {P : α → β → Prop} {Q : β → γ → Prop} {R : α → γ → Prop}
    {as : List α} {bs : List β} {cs : List γ} (h : ∀ a b c, P a b → Q b c → R a c)
    (hbs : List.Forall₂ P as bs) (hcs : List.Forall₂ Q bs cs) : List.Forall₂ R as cs := by
  induction hbs generalizing cs with
  | nil =>
      cases hcs
      exact .nil
  | cons hab _ ih =>
      obtain ⟨c, cs, hbc, hrest, rfl⟩ := List.forall₂_cons_left_iff.1 hcs
      exact .cons (h _ _ _ hab hbc) (ih hrest)

/-- Lists that are paired up with the same list, and so the list made of both. -/
theorem forall₂_zipWith {α β γ δ : Type} {P : α → β → Prop} {Q : α → γ → Prop}
    {R : α → δ → Prop} {f : β → γ → δ} {as : List α} {bs : List β} {cs : List γ}
    (hbs : List.Forall₂ P as bs) (hcs : List.Forall₂ Q as cs)
    (h : ∀ a b c, b ∈ bs → c ∈ cs → P a b → Q a c → R a (f b c)) :
    List.Forall₂ R as (List.zipWith f bs cs) := by
  induction hbs generalizing cs with
  | nil =>
      cases hcs
      exact .nil
  | @cons a b as bs hab hrest ih =>
      cases hcs with
      | @cons _ c _ cs hac hcs =>
          refine .cons (h a b c (by simp) (by simp) hab hac) (ih hcs ?_)
          intro a b c hb hc
          exact h a b c (List.mem_cons_of_mem _ hb) (List.mem_cons_of_mem _ hc)

/-- Nothing is found position by position exactly if both lists look the same. -/
theorem any_zipWith_eq_false_iff {α β γ δ : Type} {P : α → β → Prop} {Q : α → β → Prop}
    {f : β → β → Option γ} {g : β → δ} {as : List α} {bs cs : List β}
    (hbs : List.Forall₂ P as bs) (hcs : List.Forall₂ Q as cs)
    (h : ∀ a b c, b ∈ bs → c ∈ cs → P a b → Q a c → (f b c = none ↔ g b = g c)) :
    (List.zipWith f bs cs).any Option.isSome = false ↔ bs.map g = cs.map g := by
  induction hbs generalizing cs with
  | nil =>
      cases hcs
      simp
  | @cons a b as bs hab hrest ih =>
      cases hcs with
      | @cons _ c _ cs hac hcs =>
          have hhead := h a b c (by simp) (by simp) hab hac
          have htail := ih hcs fun a b c hb hc =>
            h a b c (List.mem_cons_of_mem _ hb) (List.mem_cons_of_mem _ hc)
          rw [List.zipWith_cons_cons, List.any_cons, Bool.or_eq_false_iff, htail,
            Option.isSome_eq_false_iff, Option.isNone_iff_eq_none, hhead, List.map_cons,
            List.map_cons, List.cons.injEq]

/-- Two ways of going through a list beside another agree if they agree on what is side by side. -/
theorem zipWith_eq_zipWith_map {α β γ γ' δ : Type} {P : α → β → Prop} {Q : α → γ → Prop}
    {f : β → γ → δ} {f' : β → γ' → δ} {g : γ → γ'} {as : List α} {bs : List β} {cs : List γ}
    (hbs : List.Forall₂ P as bs) (hcs : List.Forall₂ Q as cs)
    (h : ∀ a b c, b ∈ bs → c ∈ cs → P a b → Q a c → f b c = f' b (g c)) :
    List.zipWith f bs cs = List.zipWith f' bs (cs.map g) := by
  induction hbs generalizing cs with
  | nil => rfl
  | @cons a b as bs hab hrest ih =>
      cases hcs with
      | @cons _ c _ cs hac hcs =>
          have htail := ih hcs fun a b c hb hc =>
            h a b c (List.mem_cons_of_mem _ hb) (List.mem_cons_of_mem _ hc)
          rw [List.map_cons, List.zipWith_cons_cons, List.zipWith_cons_cons, htail,
            h a b c (by simp) (by simp) hab hac]

theorem exists_getElem?_left {α β : Type} {R : α → β → Prop} {as : List α} {bs : List β}
    (h : List.Forall₂ R as bs) {i : Nat} {b : β} (hb : bs[i]? = some b) :
    ∃ a, as[i]? = some a ∧ R a b := by
  induction h generalizing i with
  | nil => simp at hb
  | @cons a b' as bs hab hrest ih =>
      cases i with
      | zero =>
          obtain rfl : b' = b := by simpa using hb
          exact ⟨a, rfl, hab⟩
      | succ i => exact ih (by simpa using hb)

theorem forall₂_set_right {α β : Type} {R : α → β → Prop} {as : List α} {bs : List β}
    (h : List.Forall₂ R as bs) {i : Nat} {a : α} {b : β} (ha : as[i]? = some a) (hab : R a b) :
    List.Forall₂ R as (bs.set i b) := by
  induction h generalizing i with
  | nil => exact .nil
  | @cons a' b' as bs hab' hrest ih =>
      cases i with
      | zero =>
          obtain rfl : a' = a := by simpa using ha
          exact .cons hab hrest
      | succ i => exact .cons hab' (ih (by simpa using ha))

theorem forall₂_modify_right {α β : Type} {R : α → β → Prop} {as : List α} {bs : List β}
    (h : List.Forall₂ R as bs) {i : Nat} {a : α} {f : β → β} (ha : as[i]? = some a)
    (hf : ∀ b, R a b → R a (f b)) : List.Forall₂ R as (bs.modify i f) := by
  induction h generalizing i with
  | nil => simp at ha
  | cons hab hrest ih =>
      cases i with
      | zero =>
          obtain rfl := Option.some.inj ha
          exact .cons (hf _ hab) hrest
      | succ i => exact .cons hab (ih ha)

end VersionedRecords
