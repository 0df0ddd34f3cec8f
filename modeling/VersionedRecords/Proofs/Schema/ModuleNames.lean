import VersionedRecords.Proofs.Schema.Keywords

/-!
Modules are named after types, without loss.

A capital is written as an underscore and a small letter, but for the one in front, which is written
without the underscore.  With an underscore put in front of the whole there is no such exception any
more: every capital can be read back from its underscore, and all other characters stand for
themselves.
-/

namespace VersionedRecords.Schema

/-- Reads capitals back: an underscore makes a capital of the letter behind it. -/
def raised : List Char → List Char
  | '_' :: c :: rest => c.toUpper :: raised rest
  | c :: rest => c :: raised rest
  | [] => []

/-- Small letters, digits, and underscores that each stand in front of a small letter. -/
def Marked : List Char → Prop
  | '_' :: c :: rest => c.isLower = true ∧ Marked rest
  | c :: rest => (c.isLower = true ∨ c.isDigit = true) ∧ Marked rest
  | [] => True

/-- The name of the type that a module is named after. -/
def typeName (module : String) : String := String.ofList (raised ('_' :: module.toList))

/-- The names that modules can have: with an underscore put in front, they are marked. -/
def ModuleName (name : String) : Prop := Marked ('_' :: name.toList)

/-! ### Characters -/

section Characters

variable {c : Char} {cs : List Char}

theorem isUpper_iff : c.isUpper = true ↔ 65 ≤ c.toNat ∧ c.toNat ≤ 90 := by
  have hrange : c.isUpper = decide (65 ≤ c.toNat ∧ c.toNat ≤ 90) := rfl
  rw [hrange, decide_eq_true_iff]

theorem isLower_iff : c.isLower = true ↔ 97 ≤ c.toNat ∧ c.toNat ≤ 122 := by
  have hand : c.isLower = (decide (97 ≤ c.toNat) && decide (c.toNat ≤ 122)) := rfl
  rw [hand, Bool.and_eq_true, decide_eq_true_iff, decide_eq_true_iff]

theorem isAlphanum_iff : c.isAlphanum = true ↔
    c.isUpper = true ∨ c.isLower = true ∨ c.isDigit = true := by
  have hor : c.isAlphanum = ((c.isUpper || c.isLower) || c.isDigit) := rfl
  rw [hor, Bool.or_eq_true, Bool.or_eq_true, or_assoc]

theorem toUpper_of_isLower (h : c.isLower = true) :
    c.toUpper.isUpper = true ∧ c.toUpper.toLower = c := by
  have hall : ∀ n < 123, 97 ≤ n → (Char.ofNat n).toUpper.isUpper = true ∧
      (Char.ofNat n).toUpper.toLower = Char.ofNat n := by
    decide
  obtain ⟨hlow, hhigh⟩ := isLower_iff.1 h
  rw [← Char.ofNat_toNat c]
  exact hall _ (Nat.lt_succ_of_le hhigh) hlow

theorem not_isUpper (h : c.isLower = true ∨ c.isDigit = true) : ¬ c.isUpper = true := by
  rw [isLower_iff, isDigit_iff] at h
  rw [isUpper_iff]
  omega

theorem ne_underscore (h : c.isAlphanum = true) : c ≠ '_' := by
  rintro rfl
  exact absurd h (by decide)

theorem raised_cons_of_ne (h : c ≠ '_') (cs : List Char) : raised (c :: cs) = c :: raised cs := by
  rw [raised]
  rintro _ _ rfl
  exact absurd rfl h

theorem marked_cons_of_ne (h : c ≠ '_') (cs : List Char) :
    Marked (c :: cs) ↔ (c.isLower = true ∨ c.isDigit = true) ∧ Marked cs := by
  rw [Marked]
  rintro _ _ rfl
  exact absurd rfl h

/-- Capitals are read back from what they were set off as. -/
theorem raised_flatMap_setOff (h : ∀ c ∈ cs, c.isAlphanum = true) :
    raised (cs.flatMap setOff) = cs := by
  induction cs with
  | nil => rfl
  | cons c cs ih =>
      rw [List.forall_mem_cons] at h
      rw [List.flatMap_cons, setOff]
      split
      · next hupper =>
        rw [List.cons_append, List.cons_append, List.nil_append, raised, ih h.2,
          (toLower_of_isUpper hupper).2]
      · rw [List.cons_append, List.nil_append, raised_cons_of_ne (ne_underscore h.1), ih h.2]

theorem marked_flatMap_setOff (h : ∀ c ∈ cs, c.isAlphanum = true) :
    Marked (cs.flatMap setOff) := by
  induction cs with
  | nil => trivial
  | cons c cs ih =>
      rw [List.forall_mem_cons] at h
      rw [List.flatMap_cons, setOff]
      split
      · next hupper => exact ⟨(toLower_of_isUpper hupper).1, ih h.2⟩
      · next hupper =>
        rw [List.cons_append, List.nil_append, marked_cons_of_ne (ne_underscore h.1)]
        exact ⟨(isAlphanum_iff.1 h.1).resolve_left hupper, ih h.2⟩

/-- Whatever is marked can be read as letters and digits, and these are set off in the same way. -/
theorem flatMap_setOff_raised (h : Marked cs) :
    (raised cs).flatMap setOff = cs ∧ ∀ c ∈ raised cs, c.isAlphanum = true := by
  induction cs using raised.induct with
  | case1 c rest ih =>
      obtain ⟨hc, hrest⟩ := h
      obtain ⟨hback, hall⟩ := ih hrest
      obtain ⟨hupper, hlower⟩ := toUpper_of_isLower hc
      rw [raised, List.flatMap_cons, setOff, if_pos hupper, hlower, hback, List.forall_mem_cons]
      exact ⟨rfl, isAlphanum_iff.2 (.inl hupper), hall⟩
  | case2 c rest hne ih =>
      rw [Marked] at h
      · obtain ⟨hback, hall⟩ := ih h.2
        rw [raised, List.flatMap_cons, setOff, if_neg (not_isUpper h.1), hback,
          List.forall_mem_cons]
        · exact ⟨rfl, isAlphanum_iff.2 (.inr h.1), hall⟩
        · exact hne
      · exact hne
  | case3 => exact ⟨rfl, List.forall_mem_nil _⟩

theorem Marked.spelled (h : Marked cs) :
    ∀ c ∈ cs, c.isLower = true ∨ c.isDigit = true ∨ c = '_' := by
  induction cs using raised.induct with
  | case1 c rest ih =>
      obtain ⟨hc, hrest⟩ := h
      simp only [List.forall_mem_cons]
      exact ⟨.inr (.inr trivial), .inl hc, ih hrest⟩
  | case2 c rest hne ih =>
      rw [Marked] at h
      · rw [List.forall_mem_cons]
        exact ⟨h.1.imp_right .inl, ih h.2⟩
      · exact hne
  | case3 => exact List.forall_mem_nil _

end Characters

/-! ### Names -/

section Names

variable {n n' m : String}

/-- With an underscore in front, the first capital is set off like the others. -/
theorem underscore_toSnakeCase (h : PascalCase n) :
    '_' :: (toSnakeCase n).toList = n.toList.flatMap setOff := by
  obtain ⟨c, rest, hname, hc, -⟩ := h
  rw [toList_toSnakeCase hname, hname, List.flatMap_cons, setOff, if_pos hc]
  rfl

theorem PascalCase.isAlphanum (h : PascalCase n) : ∀ c ∈ n.toList, c.isAlphanum = true := by
  obtain ⟨c, rest, hname, hc, hrest⟩ := h
  rw [hname, List.forall_mem_cons]
  exact ⟨isAlphanum_iff.2 (.inl hc), hrest⟩

theorem typeName_toSnakeCase (h : PascalCase n) : typeName (toSnakeCase n) = n := by
  rw [typeName, underscore_toSnakeCase h, raised_flatMap_setOff h.isAlphanum, String.ofList_toList]

theorem moduleName_toSnakeCase (h : PascalCase n) : ModuleName (toSnakeCase n) := by
  rw [ModuleName, underscore_toSnakeCase h]
  exact marked_flatMap_setOff h.isAlphanum

/-- A module name has a small letter in front, behind the underscore that is left out. -/
theorem ModuleName.exists_cons (h : ModuleName m) :
    ∃ c rest, m.toList = c :: rest ∧ c.isLower = true ∧ Marked rest := by
  rw [ModuleName] at h
  cases hm : m.toList with
  | nil =>
      rw [hm] at h
      exact absurd h.1 (by decide)
  | cons c rest =>
      rw [hm] at h
      exact ⟨c, rest, rfl, h⟩

theorem ModuleName.snakeCase (h : ModuleName m) : SnakeCase m := by
  obtain ⟨c, rest, hm, hc, hrest⟩ := h.exists_cons
  exact ⟨c, rest, hm, .inl hc, hrest.spelled⟩

theorem ModuleName.pascalCase (h : ModuleName m) : PascalCase (typeName m) := by
  obtain ⟨c, rest, hm, hc, hrest⟩ := h.exists_cons
  refine ⟨c.toUpper, raised rest, ?_, (toUpper_of_isLower hc).1, (flatMap_setOff_raised hrest).2⟩
  rw [typeName, hm, String.toList_ofList, raised]

theorem ModuleName.toSnakeCase_typeName (h : ModuleName m) : toSnakeCase (typeName m) = m := by
  have hback := underscore_toSnakeCase h.pascalCase
  rw [typeName, String.toList_ofList, (flatMap_setOff_raised h).1, List.cons.injEq] at hback
  exact String.toList_inj.1 hback.2

theorem toSnakeCase_inj (h : PascalCase n) (h' : PascalCase n')
    (heq : toSnakeCase n = toSnakeCase n') : n = n' := by
  rw [← typeName_toSnakeCase h, heq, typeName_toSnakeCase h']

/-- The names of types become names in small letters, different ones for different types, and
every name that is marked comes from a type. -/
theorem toSnakeCase_lossless :
    (∀ n, PascalCase n → isSnakeCase (toSnakeCase n) = true) ∧
    (∀ n n', PascalCase n → PascalCase n' → n ≠ n' → toSnakeCase n ≠ toSnakeCase n') ∧
    ∀ m, (∃ n, PascalCase n ∧ toSnakeCase n = m) ↔ ModuleName m := by
  refine ⟨fun n h => ?_, fun n n' h h' hne heq => hne (toSnakeCase_inj h h' heq), fun m => ?_⟩
  · exact isSnakeCase_iff.2 (moduleName_toSnakeCase h).snakeCase
  · constructor
    · rintro ⟨n, h, rfl⟩
      exact moduleName_toSnakeCase h
    · exact fun h => ⟨typeName m, h.pascalCase, h.toSnakeCase_typeName⟩

/-- Runs of capitals and digits are no exception, and an underscore in front of a digit never comes
up. -/
theorem toSnakeCase_lossless_of_runs :
    isSnakeCase (toSnakeCase "HTTPServer2B") = true ∧
    toSnakeCase "HTTPServer2B" ≠ toSnakeCase "HttpServer2b" ∧
    ¬ ∃ n, PascalCase n ∧ toSnakeCase n = "h_2" := by
  obtain ⟨hsnake, hne, himage⟩ := toSnakeCase_lossless
  have hruns : PascalCase "HTTPServer2B" := isPascalCase_iff.1 (by decide)
  have hplain : PascalCase "HttpServer2b" := isPascalCase_iff.1 (by decide)
  refine ⟨hsnake _ hruns, hne _ _ hruns hplain (by decide), ?_⟩
  rw [himage]
  exact fun h => absurd h.2.1 (by decide)

end Names

end VersionedRecords.Schema
