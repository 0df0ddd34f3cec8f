/-!
Keys: the values that can identify a record, a member of a set or an entry of a map.  They are
totally ordered, and everything that is kept by key is kept in this order.
-/

namespace VersionedRecords

/-- A value that identifies something. -/
inductive Key
  | int (value : Int)
  | text (value : String)
  | char (value : Char)
  | bool (value : Bool)
  /-- The identity of one line of one order. -/
  | line (order line : Nat)
deriving DecidableEq, Repr, Inhabited

namespace Key

/-- Keys of different kinds never meet in one collection; the rank only makes the order total. -/
def rank : Key → Nat
  | int _ => 0
  | text _ => 1
  | char _ => 2
  | bool _ => 3
  | line _ _ => 4

/-- Whether the first list of numbers comes before the second: the first difference decides, and a
list comes before what extends it. -/
def precedesList : List Nat → List Nat → Bool
  | [], [] => false
  | [], _ :: _ => true
  | _ :: _, [] => false
  | x :: xs, y :: ys => x < y || (x == y && precedesList xs ys)

/-- The strict order of keys: numbers by size, texts and characters by code points, `false` before
`true`, lines by order and then by line. -/
def precedes : Key → Key → Bool
  | int a, int b => a < b
  | text a, text b => precedesList (a.toList.map Char.toNat) (b.toList.map Char.toNat)
  | char a, char b => a.toNat < b.toNat
  | bool a, bool b => !a && b
  | line a b, line c d => a < c || (a == c && b < d)
  | a, b => a.rank < b.rank

/-- The three-way comparison that goes with `precedes`. -/
def compare (a b : Key) : Ordering :=
  if a = b then .eq else if a.precedes b then .lt else .gt

instance : Ord Key := ⟨compare⟩

attribute [grind =] precedesList precedes

theorem precedesList_irrefl (xs : List Nat) : precedesList xs xs = false := by
  induction xs with
  | nil => rfl
  | cons x xs ih => simp [precedesList, ih]

theorem precedesList_trans {xs ys zs : List Nat} (h : precedesList xs ys = true)
    (h' : precedesList ys zs = true) : precedesList xs zs = true := by
  induction xs generalizing ys zs with
  | nil => cases ys <;> cases zs <;> simp_all [precedesList]
  | cons x xs ih =>
    cases ys with
    | nil => simp [precedesList] at h
    | cons y ys =>
      cases zs with
      | nil => simp [precedesList] at h'
      | cons z zs =>
        simp only [precedesList, Bool.or_eq_true, decide_eq_true_eq, Bool.and_eq_true,
          beq_iff_eq] at h h' ⊢
        rcases h with h | ⟨rfl, h⟩
        · rcases h' with h' | ⟨rfl, _⟩
          · exact .inl (Nat.lt_trans h h')
          · exact .inl h
        · rcases h' with h' | ⟨rfl, h'⟩
          · exact .inl h'
          · exact .inr ⟨rfl, ih h h'⟩

theorem precedesList_total {xs ys : List Nat} (h : xs ≠ ys) :
    precedesList xs ys = true ∨ precedesList ys xs = true := by
  induction xs generalizing ys with
  | nil => cases ys <;> simp_all [precedesList]
  | cons x xs ih =>
    cases ys with
    | nil => simp [precedesList]
    | cons y ys =>
      simp only [precedesList, Bool.or_eq_true, decide_eq_true_eq, Bool.and_eq_true, beq_iff_eq]
      rcases Nat.lt_trichotomy x y with hxy | rfl | hxy
      · exact .inl (.inl hxy)
      · rcases ih (by simpa using h) with h' | h'
        · exact .inl (.inr ⟨rfl, h'⟩)
        · exact .inr (.inr ⟨rfl, h'⟩)
      · exact .inr (.inl hxy)

private theorem codes_injective {a b : String}
    (h : a.toList.map Char.toNat = b.toList.map Char.toNat) : a = b := by
  refine String.toList_inj.1 ((List.map_inj_right ?_).1 h)
  intro c d hcd
  exact Char.toNat_inj.1 hcd

theorem precedes_irrefl (a : Key) : a.precedes a = false := by
  cases a <;> simp [precedes, precedesList_irrefl]

theorem precedes_trans {a b c : Key} (h : a.precedes b = true) (h' : b.precedes c = true) :
    a.precedes c = true := by
  cases a <;> cases b <;> simp only [precedes, rank] at h <;> cases c <;>
    simp only [precedes, rank] at h' ⊢ <;>
    first
    | exact precedesList_trans h h'
    | (simp_all; done)
    | (simp only [decide_eq_true_eq, Bool.or_eq_true, Bool.and_eq_true, beq_iff_eq] at *; omega)

theorem precedes_total {a b : Key} (h : a ≠ b) : a.precedes b = true ∨ b.precedes a = true := by
  cases a with
  | int x =>
    cases b with
    | int y =>
      have hxy : x ≠ y := fun e => h (congrArg int e)
      simp only [precedes, decide_eq_true_eq]
      omega
    | _ => simp [precedes, rank]
  | text x =>
    cases b with
    | text y =>
      exact precedesList_total fun e => h (congrArg text (codes_injective e))
    | _ => simp [precedes, rank]
  | char x =>
    cases b with
    | char y =>
      have hxy : x.toNat ≠ y.toNat := fun e => h (congrArg char (Char.toNat_inj.1 e))
      simp only [precedes, decide_eq_true_eq]
      omega
    | _ => simp [precedes, rank]
  | bool x =>
    cases b with
    | bool y => cases x <;> cases y <;> simp_all [precedes]
    | _ => simp [precedes, rank]
  | line x i =>
    cases b with
    | line y j =>
      have hxy : ¬(x = y ∧ i = j) := by
        rintro ⟨rfl, rfl⟩
        exact h rfl
      simp only [precedes, decide_eq_true_eq, Bool.or_eq_true, Bool.and_eq_true, beq_iff_eq]
      omega
    | _ => simp [precedes, rank]

theorem precedes_asymm {a b : Key} (h : a.precedes b = true) : b.precedes a = false := by
  cases hb : b.precedes a with
  | false => rfl
  | true => simpa [precedes_irrefl] using precedes_trans h hb

theorem compare_eq_iff {a b : Key} : compare a b = .eq ↔ a = b := by
  unfold compare
  split
  · simp_all
  · split <;> simp_all

end Key

end VersionedRecords
