import VersionedRecords.Proofs.Schema.Spelling
import VersionedRecords.Source.Literal

/-!
Cutting source text into tokens, piece by piece.

What a text is cut into is told from its end: if the rest of a text is cut into some tokens, then a
blank, a word, a mark or a documented line in front of it puts its own tokens in front of them.  The
fuel does not matter as long as there is more of it than characters.
-/

namespace VersionedRecords.Source

open Schema (Identifier isWordChar)

namespace Token

/-- What a text is cut into, with any fuel that is enough. -/
def Lexes (cs : List Char) (ts : List Token) : Prop :=
  ∀ fuel, cs.length < fuel → lex? fuel cs = some ts

theorem ofSource?_of_lexes {s : String} {ts : List Token} (h : Lexes s.toList ts)
    (hmark : s.toList.head? ≠ some '\uFEFF') : ofSource? s = some ts := by
  unfold ofSource?
  split
  · rename_i rest heq
    exact absurd (by rw [heq]; rfl) hmark
  · exact h _ (Nat.lt_succ_self _)

/-! ### Blanks -/

section Blanks

variable {c : Char} {cs rest : List Char}

theorem plainComment?_of_ne (hslash : c ≠ '/') : plainComment? (c :: cs) = none := by
  unfold plainComment?
  split <;> simp_all

theorem docComment?_of_ne (hslash : c ≠ '/') : docComment? (c :: cs) = none := by
  unfold docComment?
  split <;> simp_all

theorem ne_slash_of_isSpace (hspace : isSpace c = true) : c ≠ '/' := by
  rintro rfl
  exact absurd hspace (by decide)

theorem skipTrivia_of_isSpace (hspace : isSpace c = true) (fuel : Nat) :
    skipTrivia (fuel + 1) (c :: cs) = skipTrivia fuel cs := by
  rw [skipTrivia, plainComment?_of_ne (ne_slash_of_isSpace hspace)]
  simp only [hspace, if_true]

theorem skipTrivia_of_not_isSpace (hslash : c ≠ '/') (hspace : isSpace c = false) (fuel : Nat) :
    skipTrivia fuel (c :: cs) = c :: cs := by
  cases fuel with
  | zero => rfl
  | succ fuel =>
    rw [skipTrivia, plainComment?_of_ne hslash]
    simp [hspace]

namespace Lexes

variable {t : Token} {ts : List Token}

theorem nil : Lexes [] [] := by
  intro fuel hfuel
  obtain ⟨fuel, rfl⟩ := Nat.exists_eq_add_of_lt hfuel
  rfl

theorem space (hspace : isSpace c = true) (h : Lexes cs ts) : Lexes (c :: cs) ts := by
  intro fuel hfuel
  rw [← h fuel (Nat.lt_of_succ_lt hfuel)]
  cases fuel with
  | zero => rfl
  | succ fuel => rw [lex?, lex?, List.length_cons, skipTrivia_of_isSpace hspace]

theorem spaces {blanks : List Char} (hblanks : ∀ c ∈ blanks, isSpace c = true) (h : Lexes cs ts) :
    Lexes (blanks ++ cs) ts := by
  induction blanks with
  | nil => exact h
  | cons c blanks ih =>
    exact (ih fun d hd => hblanks d (List.mem_cons_of_mem _ hd)).space (hblanks c List.mem_cons_self)

theorem token (hslash : c ≠ '/') (hspace : isSpace c = false)
    (htoken : token? (c :: cs) = some (t, rest)) (hlength : rest.length ≤ cs.length)
    (h : Lexes rest ts) : Lexes (c :: cs) (t :: ts) := by
  intro fuel hfuel
  cases fuel with
  | zero => exact absurd hfuel (Nat.not_lt_zero _)
  | succ fuel =>
    have hrest : lex? fuel rest = some ts := by
      refine h fuel ?_
      simp only [List.length_cons] at hfuel
      omega
    rw [lex?, skipTrivia_of_not_isSpace hslash hspace]
    simp only [docComment?_of_ne hslash, htoken, Option.bind_eq_bind, Option.bind_some, hrest]
    rfl

end Lexes

end Blanks

/-! ### Documented lines -/

theorem restOfLine_append {line : List Char} (hline : ∀ c ∈ line, c ≠ '\n' ∧ c ≠ '\r')
    (rest : List Char) : restOfLine (line ++ '\n' :: rest) = (line, '\n' :: rest) := by
  induction line with
  | nil => rfl
  | cons c line ih =>
    obtain ⟨hfeed, hreturn⟩ := hline c List.mem_cons_self
    have hrest := ih fun d hd => hline d (List.mem_cons_of_mem _ hd)
    rw [List.cons_append]
    unfold restOfLine
    split
    · simp_all
    · simp_all
    · simp_all
    · simp_all

theorem returnsPaired_of_ne {line : List Char} (hline : ∀ c ∈ line, c ≠ '\n' ∧ c ≠ '\r') :
    returnsPaired line = true := by
  induction line with
  | nil => rfl
  | cons c line ih =>
    have hreturn := (hline c List.mem_cons_self).2
    have hrest := ih fun d hd => hline d (List.mem_cons_of_mem _ hd)
    unfold returnsPaired
    split <;> simp_all

/-- A line of documentation is the attribute that it stands for. -/
theorem Lexes.doc {line rest : List Char} {ts : List Token}
    (hline : ∀ c ∈ line, c ≠ '\n' ∧ c ≠ '\r') (hslash : line.head? ≠ some '/')
    (h : Lexes ('\n' :: rest) ts) :
    Lexes ('/' :: '/' :: '/' :: (line ++ '\n' :: rest)) (docTokens false line ++ ts) := by
  have hhead : (line ++ '\n' :: rest).head? ≠ some '/' := by
    cases line with
    | nil => simp
    | cons c line => simpa using hslash
  have hcomment : plainComment? ('/' :: '/' :: '/' :: (line ++ '\n' :: rest)) = none := by
    unfold plainComment?
    split <;> grind
  have hskip : ∀ fuel, skipTrivia fuel ('/' :: '/' :: '/' :: (line ++ '\n' :: rest)) =
      '/' :: '/' :: '/' :: (line ++ '\n' :: rest) := by
    intro fuel
    cases fuel with
    | zero => rfl
    | succ fuel =>
      rw [skipTrivia, hcomment]
      rfl
  have hdoc : docComment? ('/' :: '/' :: '/' :: (line ++ '\n' :: rest)) =
      some (docTokens false line, '\n' :: rest) := by
    simp only [docComment?, hhead, if_false, restOfLine_append hline, Option.bind_eq_bind,
      Option.bind_some, returnsPaired_of_ne hline, if_true]
    rfl
  intro fuel hfuel
  cases fuel with
  | zero => exact absurd hfuel (Nat.not_lt_zero _)
  | succ fuel =>
    have hrest : lex? fuel ('\n' :: rest) = some ts := by
      refine h fuel ?_
      simp only [List.length_cons, List.length_append] at hfuel ⊢
      omega
    rw [lex?, hskip]
    simp only [hdoc, hrest]
    rfl

/-! ### Words -/

/-- A text that does not begin with a quotation mark or a number sign. -/
def Unquoted (cs : List Char) : Prop :=
  ∀ c, cs.head? = some c → c ≠ '"' ∧ c ≠ '#' ∧ c ≠ '\''

/-- What may follow a word: nothing that would belong to it or make it the beginning of a literal. -/
structure EndsWord (rest : List Char) : Prop where
  stops : ∀ c, rest.head? = some c → Text.isIdentContinue c = false
  unquoted : Unquoted rest

theorem toNat_lt_of_isWordChar {c : Char} (hc : isWordChar c = true) : c.toNat < 0x80 := by
  have hbounds := Schema.bounds_of_isWordChar hc
  omega

theorem isIdentContinue_of_isWordChar {c : Char} (hc : isWordChar c = true) :
    Text.isIdentContinue c = true := by
  rw [Text.isIdentContinue, if_pos (toNat_lt_of_isWordChar hc)]
  exact hc

theorem Unquoted.word_append {w rest : List Char} (hw : ∀ c ∈ w, isWordChar c = true)
    (h : Unquoted rest) : Unquoted (w ++ rest) := by
  cases w with
  | nil => exact h
  | cons d w =>
    intro c hc
    obtain rfl := Option.some.inj hc
    have hword := hw d List.mem_cons_self
    refine ⟨?_, ?_, ?_⟩ <;> rintro rfl <;> exact absurd hword (by decide)

/-- Behind a letter that belongs to a word there is no quotation mark either. -/
theorem EndsWord.unquoted_behind {w rest behind : List Char} {d : Char} (h : EndsWord rest)
    (hw : ∀ c ∈ w, isWordChar c = true) (hd : isWordChar d = true)
    (heq : w ++ rest = d :: behind) : Unquoted behind := by
  cases w with
  | nil =>
    have hrest : rest = d :: behind := heq
    have hstops := h.stops d (by rw [hrest]; rfl)
    exact absurd (isIdentContinue_of_isWordChar hd) (by simp [hstops])
  | cons d' w =>
    rw [List.cons_append, List.cons.injEq] at heq
    rw [← heq.2]
    exact h.unquoted.word_append fun c hc => hw c (List.mem_cons_of_mem _ hc)

theorem Unquoted.isPrefixOf_eq_false {cs s : List Char} (h : Unquoted cs) {q : Char}
    (hq : q = '"' ∨ q = '#' ∨ q = '\'') : (q :: s).isPrefixOf cs = false := by
  cases cs with
  | nil => rfl
  | cons c cs =>
    obtain ⟨hquote, hhash, happ⟩ := h c rfl
    have hne : q ≠ c := by
      rintro rfl
      rcases hq with rfl | rfl | rfl <;> contradiction
    simp [List.isPrefixOf, hne]

theorem rawString?_of_unquoted {content : Content} {cs : List Char} (h : Unquoted cs) :
    rawString? content cs = none := by
  cases cs with
  | nil => rfl
  | cons c cs =>
    obtain ⟨hquote, hhash, -⟩ := h c rfl
    rw [rawString?, List.takeWhile_cons_of_neg (by simpa using hhash), List.length_nil, List.drop_zero]
    split
    · simp_all
    · rfl

theorem bounds_of_letter {c : Char} (hc : c.isAlpha = true ∨ c = '_') :
    (65 ≤ c.toNat ∧ c.toNat ≤ 90) ∨ (97 ≤ c.toNat ∧ c.toNat ≤ 122) ∨ c.toNat = 95 := by
  rw [Schema.isAlpha_iff] at hc
  rcases hc with (h | h) | h
  · exact .inl h
  · exact .inr (.inl h)
  · exact .inr (.inr (by rw [h]; rfl))

/-- No number begins with a letter. -/
theorem number?_of_letter {c : Char} {cs : List Char} (hc : c.isAlpha = true ∨ c = '_') :
    number? (c :: cs) = none := by
  have hbounds := bounds_of_letter hc
  have hdigit : c.isDigit = false := by
    rw [Bool.eq_false_iff, ne_eq, Schema.isDigit_iff]
    omega
  have hhex : ∀ d, Json.hexValue? c = some d → ¬ d < 10 := by
    intro d hd
    unfold Json.hexValue? at hd
    simp only [Char.le_def, UInt32.le_iff_toNat_le] at hd
    change (if 48 ≤ c.toNat ∧ c.toNat ≤ 57 then _ else if 97 ≤ c.toNat ∧ c.toNat ≤ 102 then
      some (c.toNat - 97 + 10) else if 65 ≤ c.toNat ∧ c.toNat ≤ 70 then some (c.toNat - 65 + 10)
      else none) = some d at hd
    grind
  have hfloat : floatDigits? (c :: cs) = none := by
    simp [floatDigits?, hdigit]
  have hbase : baseDigits? 10 false (c :: cs) = none := by
    rw [baseDigits?]
    split
    · rfl
    · split
      · rename_i d hd
        rw [if_neg (hhex d hd), hdigit]
        rfl
      · rfl
  have hwhole : wholeDigits? (c :: cs) = none := by
    unfold wholeDigits?
    split <;> simp_all
  rw [number?, hfloat, hwhole]
  rfl

section Words

variable (n : Identifier) {rest : List Char}

theorem exists_letter : ∃ c tail, n.text = c :: tail ∧ (c.isAlpha = true ∨ c = '_') ∧
    isWordChar c = true ∧ ∀ d ∈ tail, isWordChar d = true := by
  obtain ⟨c, tail, h⟩ := List.exists_cons_of_ne_nil n.ne_nil
  have hspelled := n.spelled
  rw [h, Schema.isIdentifier, Bool.and_eq_true, Bool.or_eq_true, beq_iff_eq] at hspelled
  refine ⟨c, tail, h, hspelled.1, n.isWordChar_of_mem (by simp [h]), fun d hd => ?_⟩
  exact n.isWordChar_of_mem (by simp [h, hd])

theorem plainWord?_identifier (hends : EndsWord rest) :
    plainWord? (n.text ++ rest) = some (n.text, rest) := by
  obtain ⟨c, tail, h, hletter, hc, htail⟩ := exists_letter n
  have hstart : Text.isIdentStart c = true := by
    rw [Text.isIdentStart, if_pos (toNat_lt_of_isWordChar hc)]
    simpa using hletter
  have hall : ∀ d ∈ tail, Text.isIdentContinue d = true := fun d hd =>
    isIdentContinue_of_isWordChar (htail d hd)
  rw [h, List.cons_append, plainWord?, if_pos hstart, List.takeWhile_append_of_pos hall,
    List.dropWhile_append_of_pos hall]
  cases rest with
  | nil => simp
  | cons d rest => simp [hends.stops d rfl]

theorem word?_identifier (hends : EndsWord rest) :
    word? (n.text ++ rest) = some (String.ofList n.text, rest) := by
  obtain ⟨c, tail, h, -, -, htail⟩ := exists_letter n
  have hquote := hends.unquoted.word_append htail
  unfold word?
  split
  · rename_i behind heq
    rw [h, List.cons_append, List.cons.injEq] at heq
    exact absurd rfl (hquote '#' (by rw [heq.2]; rfl)).2.1
  · rw [plainWord?_identifier n hends]
    rfl

/-- A word is not the beginning of a literal: those that begin with letters go on with a quotation
mark or a number sign. -/
theorem literal?_identifier (hends : EndsWord rest) : literal? (n.text ++ rest) = none := by
  obtain ⟨c, tail, h, hletter, hc, htail⟩ := exists_letter n
  have hquote := hends.unquoted.word_append htail
  have hquote' {d : Char} {behind : List Char} (hd : isWordChar d = true)
      (heq : tail ++ rest = d :: behind) : Unquoted behind :=
    hends.unquoted_behind htail hd heq
  have hnumber : number? (c :: (tail ++ rest)) = none := number?_of_letter hletter
  have hfirst : c ≠ '"' ∧ c ≠ '\'' := by
    refine ⟨?_, ?_⟩ <;> rintro rfl <;> exact absurd hc (by decide)
  rw [h, List.cons_append]
  generalize tail ++ rest = behind at hquote hquote' hnumber
  unfold literal?
  simp only
  split
  · simp_all
  · simp_all [rawString?_of_unquoted]
  · simp_all [Unquoted]
  · rename_i behind heq
    have := hquote' (by decide) (List.cons.inj heq).2
    simp [rawString?_of_unquoted this]
  · simp_all [Unquoted]
  · simp_all [Unquoted]
  · rename_i behind heq
    have := hquote' (by decide) (List.cons.inj heq).2
    simp [rawString?_of_unquoted this]
  · simp_all
  · simp_all

theorem not_literalStart (hends : EndsWord rest) :
    (literalStarts.any fun s => s.isPrefixOf (n.text ++ rest)) = false := by
  obtain ⟨c, tail, h, -, -, htail⟩ := exists_letter n
  have hquote := hends.unquoted.word_append htail
  have hone {q : Char} {s : List Char} (hq : q = '"' ∨ q = '#' ∨ q = '\'') :
      (q :: s).isPrefixOf (tail ++ rest) = false := hquote.isPrefixOf_eq_false hq
  have htwo {q : Char} {s : List Char} (hq : q = '"' ∨ q = '#' ∨ q = '\'') :
      ('r' :: q :: s).isPrefixOf (tail ++ rest) = false := by
    cases hbehind : tail ++ rest with
    | nil => rfl
    | cons d behind =>
      by_cases hd : 'r' = d
      · subst hd
        have := (hends.unquoted_behind htail (by decide) hbehind).isPrefixOf_eq_false (s := s) hq
        simp [List.isPrefixOf, this]
      · simp [List.isPrefixOf, hd]
  rw [h, List.cons_append]
  simp [literalStarts, List.isPrefixOf, hone, htwo]

theorem isSpace_of_isWordChar {c : Char} (hc : isWordChar c = true) : isSpace c = false := by
  have hbounds := toNat_lt_of_isWordChar hc
  rw [isSpace, Schema.isBlank_of_isWordChar hc, Bool.false_or, Bool.or_eq_false_iff]
  refine ⟨?_, ?_⟩ <;> rw [beq_eq_false_iff_ne] <;> rintro rfl <;> exact absurd hbounds (by decide)

/-- A word begins with no bracket and with no mark. -/
theorem bracket?_of_isWordChar {c : Char} (hc : isWordChar c = true) (cs : List Char) :
    placeholder? (c :: cs) = none ∧ bracket? (c :: cs) = none ∧ startsMark (c :: cs) = false := by
  refine ⟨?_, ?_, ?_⟩
  · have hround : c ≠ '(' := by
      rintro rfl
      exact absurd hc (by decide)
    have hprefix : placeholder.toList.isPrefixOf (c :: cs) = false := by
      simp [placeholder, List.isPrefixOf, hround.symm]
    rw [placeholder?, hprefix]
    rfl
  · unfold bracket?
    split <;> first
      | rfl
      | (rename_i heq
         obtain ⟨rfl, -⟩ := List.cons.inj heq
         exact absurd hc (by decide))
  · have hmark : marks.contains c = false := by
      have hall : marks.all (fun d => !isWordChar d) = true := by decide
      rw [Bool.eq_false_iff]
      intro hcontains
      have := List.all_eq_true.1 hall c (by simpa using hcontains)
      simp [hc] at this
    unfold startsMark
    split <;> first
      | rfl
      | (rename_i heq
         obtain ⟨rfl, -⟩ := List.cons.inj heq
         exact hmark)

theorem token?_identifier (hends : EndsWord rest) :
    token? (n.text ++ rest) = some (.word (String.ofList n.text), rest) := by
  have hliteral := literal?_identifier n hends
  have hstart := not_literalStart n hends
  have hword := word?_identifier n hends
  obtain ⟨c, tail, h, -, hc, -⟩ := exists_letter n
  rw [h, List.cons_append] at hliteral hstart hword
  obtain ⟨hplaceholder, hbracket, hmark⟩ := bracket?_of_isWordChar hc (tail ++ rest)
  have hmark? : mark? (c :: (tail ++ rest)) = none := by
    simp [mark?, hmark]
  rw [h, List.cons_append, token?, hplaceholder, hbracket, hliteral, hmark?, hword, hstart]
  rfl

theorem Lexes.word {ts : List Token} (hends : EndsWord rest) (h : Lexes rest ts) :
    Lexes (n.text ++ rest) (.word (String.ofList n.text) :: ts) := by
  have htoken := token?_identifier n hends
  obtain ⟨c, tail, htext, -, hc, -⟩ := exists_letter n
  have hslash : c ≠ '/' := by
    rintro rfl
    exact absurd hc (by decide)
  have hspace := isSpace_of_isWordChar hc
  rw [htext, List.cons_append] at htoken ⊢
  exact h.token hslash hspace htoken (by simp)

theorem Lexes.name {name : String} {ts : List Token} (hname : Schema.isIdentifier name.toList = true)
    (hends : EndsWord rest) (h : Lexes rest ts) :
    Lexes (name.toList ++ rest) (.word name :: ts) := by
  simpa using h.word ⟨name.toList, hname⟩ hends

end Words

/-! ### Marks and brackets -/

section Marks

variable {rest : List Char} {ts : List Token}

/-- The marks that stand in the declaration of a struct. -/
def plainMarks : List Char := ['#', '=', ':', '<', '>', ',']

theorem token?_mark {c : Char} (hc : c ∈ plainMarks) :
    token? (c :: rest) = some (.mark c (startsMark rest), rest) := by
  simp only [plainMarks, List.mem_cons, List.not_mem_nil, or_false] at hc
  rcases hc with rfl | rfl | rfl | rfl | rfl | rfl <;> rfl

theorem Lexes.mark {c : Char} {joined : Bool} (hc : c ∈ plainMarks)
    (hjoined : startsMark rest = joined) (h : Lexes rest ts) :
    Lexes (c :: rest) (.mark c joined :: ts) := by
  have hopens : plainMarks.all (fun d => d != '/' && !isSpace d) = true := by decide
  have hc' := List.all_eq_true.1 hopens c hc
  simp only [Bool.and_eq_true, bne_iff_ne, Bool.not_eq_true'] at hc'
  rw [← hjoined]
  exact h.token hc'.1 hc'.2 (token?_mark hc) (Nat.le_refl _)

theorem startsMark_name {name : String} (hname : Schema.isIdentifier name.toList = true)
    (rest : List Char) : startsMark (name.toList ++ rest) = false := by
  obtain ⟨c, tail, h, -, hc, -⟩ := exists_letter ⟨name.toList, hname⟩
  rw [show name.toList = c :: tail from h, List.cons_append]
  exact (bracket?_of_isWordChar hc _).2.2

/-- The brackets that stand in the declaration of a struct. -/
def plainBrackets : List (Char × Token) :=
  [('[', .enter .square), (']', .leave .square), ('\x7b', .enter .brace), ('\x7d', .leave .brace)]

theorem Lexes.bracket {c : Char} {t : Token} (hc : (c, t) ∈ plainBrackets) (h : Lexes rest ts) :
    Lexes (c :: rest) (t :: ts) := by
  simp only [plainBrackets, List.mem_cons, List.not_mem_nil, or_false, Prod.mk.injEq] at hc
  rcases hc with ⟨rfl, rfl⟩ | ⟨rfl, rfl⟩ | ⟨rfl, rfl⟩ | ⟨rfl, rfl⟩ <;>
    exact h.token (by decide) (by decide) rfl (Nat.le_refl _)

/-- A word ends at any character that is no letter, no digit and no kind of quotation mark. -/
theorem EndsWord.of_char {c : Char} (hc : Text.isIdentContinue c = false)
    (hquote : c ≠ '"' ∧ c ≠ '#' ∧ c ≠ '\'') : EndsWord (c :: rest) where
  stops d hd := by
    obtain rfl := Option.some.inj hd
    exact hc
  unquoted d hd := by
    obtain rfl := Option.some.inj hd
    exact hquote

end Marks

/-! ### Numbers -/

section Numbers

variable {ds : List Char}

theorem hexValue?_of_isDigit {c : Char} (hc : c.isDigit = true) :
    Json.hexValue? c = some (c.toNat - '0'.toNat) ∧ c.toNat - '0'.toNat < 10 := by
  have hbounds := Schema.isDigit_iff.1 hc
  refine ⟨?_, ?_⟩
  · rw [Json.hexValue?, if_pos]
    exact hbounds
  · change c.toNat - 48 < 10
    omega

theorem ne_underscore_of_isDigit {c : Char} (hc : c.isDigit = true) : c ≠ '_' := by
  rintro rfl
  exact absurd hc (by decide)

theorem skipDigits_digits (hds : ∀ c ∈ ds, c.isDigit = true) : skipDigits ds = [] := by
  have hall : ∀ c ∈ ds, (c.isDigit || c == '_') = true := fun c hc => by simp [hds c hc]
  have happend : (ds ++ []).dropWhile (fun c => c.isDigit || c == '_') =
      [].dropWhile fun c => c.isDigit || c == '_' := List.dropWhile_append_of_pos hall
  simpa [skipDigits] using happend

theorem baseDigits?_digits (hds : ∀ c ∈ ds, c.isDigit = true) {found : Bool}
    (hfound : found = true ∨ ds ≠ []) : baseDigits? 10 found ds = some [] := by
  induction ds generalizing found with
  | nil => simpa [baseDigits?] using hfound
  | cons c ds ih =>
    have hc := hds c List.mem_cons_self
    obtain ⟨hhex, hlt⟩ := hexValue?_of_isDigit hc
    rw [baseDigits?, if_neg (ne_underscore_of_isDigit hc), hhex]
    simp only [hlt, if_true]
    exact ih (fun d hd => hds d (List.mem_cons_of_mem _ hd)) (.inl rfl)

theorem wholeDigits?_digits (hds : ∀ c ∈ ds, c.isDigit = true) (hne : ds ≠ []) :
    wholeDigits? ds = some [] := by
  have hbase : baseDigits? 10 false ds = some [] := baseDigits?_digits hds (.inr hne)
  unfold wholeDigits?
  split <;> simp_all

theorem number?_digits (hds : ∀ c ∈ ds, c.isDigit = true) (hne : ds ≠ []) :
    number? ds = some [] := by
  have hfloat : floatDigits? ds = none := by
    cases ds with
    | nil => rfl
    | cons c ds =>
      rw [floatDigits?]
      simp [hds c List.mem_cons_self, skipDigits_digits hds]
  rw [number?, hfloat, wholeDigits?_digits hds hne]
  rfl

theorem literal?_digits (hds : ∀ c ∈ ds, c.isDigit = true) (hne : ds ≠ []) :
    literal? ds = some (.literal (String.ofList ds), []) := by
  have hnumber := number?_digits hds hne
  unfold literal?
  simp only
  split <;> simp_all [upTo]

/-- A number is one literal. -/
theorem Lexes.number (n : Nat) : Lexes (toString n).toList [.literal (toString n)] := by
  have htext : (toString n).toList = Nat.toDigits 10 n := by
    rw [Nat.toString_eq_repr, Nat.toList_repr]
  have hds : ∀ c ∈ Nat.toDigits 10 n, c.isDigit = true := fun c hc =>
    Nat.isDigit_of_mem_toDigits (by decide) (by decide) hc
  have hliteral := literal?_digits hds Nat.toDigits_ne_nil
  obtain ⟨c, cs, hcons⟩ := List.exists_cons_of_ne_nil (Nat.toDigits_ne_nil (n := n) (b := 10))
  have hc : isWordChar c = true :=
    Schema.isWordChar_iff.2 (.inl (.inr (hds c (by simp [hcons]))))
  have hslash : c ≠ '/' := by
    rintro rfl
    exact absurd hc (by decide)
  obtain ⟨hplaceholder, hbracket, -⟩ := bracket?_of_isWordChar hc cs
  have htoken : token? (c :: cs) = some (.literal (toString n), []) := by
    rw [token?, hplaceholder, hbracket, ← hcons, hliteral, ← htext, String.ofList_toList]
    rfl
  rw [htext, hcons]
  exact Lexes.nil.token hslash (isSpace_of_isWordChar hc) htoken (Nat.zero_le _)

end Numbers

end Token

namespace IntegerLiteral

/-- The value of digits that are read after others with the value `n`. -/
theorem digits?_digits {ds : List Char} (hds : ∀ c ∈ ds, c.isDigit = true) {found : Bool} {n : Nat}
    (hfound : found = true ∨ ds ≠ []) :
    digits? 10 found n ds = some (Nat.ofDigitChars 10 ds n, []) := by
  induction ds generalizing found n with
  | nil => simpa [digits?] using hfound
  | cons c ds ih =>
    have hc := hds c List.mem_cons_self
    obtain ⟨hhex, hlt⟩ := Token.hexValue?_of_isDigit hc
    have hne {d : Char} (hd : d.isDigit = false) : c ≠ d := by
      rintro rfl
      simp [hc] at hd
    have hrest : digits? 10 true (n * 10 + (c.toNat - '0'.toNat)) ds =
        some (Nat.ofDigitChars 10 ds (n * 10 + (c.toNat - '0'.toNat)), []) :=
      ih (fun d hd => hds d (List.mem_cons_of_mem _ hd)) (.inl rfl)
    rw [digits?, Nat.ofDigitChars_cons, Nat.mul_comm 10]
    simpa [hne (d := '_') (by decide), hne (d := '.') (by decide), hne (d := 'e') (by decide),
      hne (d := 'E') (by decide), hhex, hc] using And.intro hlt hrest

/-- A number that is written out is read as it was. -/
theorem ofWritten?_toString (n : Nat) : ofWritten? (toString n) = some n := by
  have htext : (toString n).toList = Nat.toDigits 10 n := by
    rw [Nat.toString_eq_repr, Nat.toList_repr]
  have hds : ∀ c ∈ Nat.toDigits 10 n, c.isDigit = true := fun c hc =>
    Nat.isDigit_of_mem_toDigits (by decide) (by decide) hc
  have hparts : parts? (toString n) = some (n, []) := by
    have hdigits : digits? 10 false 0 _ = some (_, []) :=
      digits?_digits hds (.inr Nat.toDigits_ne_nil)
    rw [Nat.ofDigitChars_toDigits (by decide) (by decide)] at hdigits
    unfold parts?
    rw [htext]
    split <;> simp_all
  rw [ofWritten?, hparts]
  rfl

end IntegerLiteral

/-! ### Trees -/

namespace Tree

/-- Whether no bracket stands by itself. -/
def Paired : Tree → Prop
  | leaf (.enter _) => False
  | leaf (.leave _) => False
  | leaf _ => True
  | group _ content => ∀ t ∈ content, t.Paired

mutual

theorem build?_tokens (outer : List (Bracket × List Tree)) (done : List Tree) (rest : List Token) :
    ∀ t : Tree, t.Paired → build? outer done (t.tokens ++ rest) = build? outer (t :: done) rest
  | leaf t, h => by
    cases t with
    | enter b => simp [Paired] at h
    | leave b => simp [Paired] at h
    | word s => cases outer <;> rfl
    | mark c joined => cases outer <;> rfl
    | text s v => cases outer <;> rfl
    | literal s => cases outer <;> rfl
  | group b content, h => by
    rw [Paired] at h
    have hcontent := build?_allTokens ((b, done) :: outer) [] (.leave b :: rest) content h
    rw [List.append_nil] at hcontent
    rw [tokens, List.cons_append, List.cons_append, List.append_assoc, List.singleton_append, build?,
      hcontent, build?, if_pos rfl, List.reverse_reverse]

theorem build?_allTokens (outer : List (Bracket × List Tree)) (done : List Tree)
    (rest : List Token) : ∀ ts : List Tree, (∀ t ∈ ts, t.Paired) →
      build? outer done (allTokens ts ++ rest) = build? outer (ts.reverse ++ done) rest
  | [], _ => rfl
  | t :: ts, h => by
    rw [allTokens, List.append_assoc, build?_tokens outer done _ t (h t List.mem_cons_self),
      build?_allTokens outer (t :: done) rest ts fun t' ht' => h t' (List.mem_cons_of_mem _ ht'),
      List.reverse_cons, List.append_assoc, List.singleton_append]

end

/-- The tokens of trees are put together to these trees again. -/
theorem ofTokens?_allTokens {ts : List Tree} (h : ∀ t ∈ ts, t.Paired) :
    ofTokens? (allTokens ts) = some ts := by
  have := build?_allTokens [] [] [] ts h
  simpa [ofTokens?, build?] using this

end Tree

end VersionedRecords.Source
