import VersionedRecords.Schema.TypeExpression

/-!
Spellings of type expressions.

A spelling is a derivation in the grammar

    T ::= blanks ( identifier | "Set" blanks "<" T ">" | "Map" blanks "<" T "," T ">" ) blanks

together with the blanks that stand at each of its places.  Reading a type expression does not go by
the grammar: it strips a word, an opening and a last closing bracket, and cuts a map at the first
comma outside of all brackets.  It accepts the texts of the spellings all the same and no others.
-/

namespace VersionedRecords

namespace Text

/-- A run of blanks. -/
structure Blanks where
  text : List Char
  blank : isBlankText text = true

namespace Blanks

theorem ext_text {b b' : Blanks} (h : b.text = b'.text) : b = b' := by
  obtain ⟨_, _⟩ := b
  obtain ⟨_, _⟩ := b'
  simpa using h

theorem isBlank_of_mem (b : Blanks) {c : Char} (hc : c ∈ b.text) : isBlank c = true :=
  List.all_eq_true.1 b.blank c hc

/-- No blank at all. -/
def none : Blanks := ⟨[], rfl⟩

/-- The blanks a text begins with. -/
def front (s : List Char) : Blanks := ⟨s.takeWhile isBlank, List.all_takeWhile⟩

theorem front_append_trimStart (s : List Char) : (front s).text ++ trimStart s = s :=
  List.takeWhile_append_dropWhile

/-- Every text is what is left of it without the blanks at both ends, with those blanks. -/
theorem exists_append_trim (s : List Char) :
    ∃ front behind : Blanks, s = front.text ++ trim s ++ behind.text := by
  have hback : (trimStart s).reverse =
      (front (trimStart s).reverse).text ++ (trimStart s).reverse.dropWhile isBlank :=
    (front_append_trimStart _).symm
  refine ⟨front s, ⟨(front (trimStart s).reverse).text.reverse, ?_⟩, ?_⟩
  · simpa [isBlankText] using (front (trimStart s).reverse).blank
  · have hstart : trimStart s = trim s ++ (front (trimStart s).reverse).text.reverse := by
      simpa [trim, trimEnd] using congrArg List.reverse hback
    rw [List.append_assoc, ← hstart, front_append_trimStart]

end Blanks

/-- A text that begins and ends with something other than a blank. -/
structure Solid (s : List Char) : Prop where
  head : ∃ c rest, s = c :: rest ∧ isBlank c = false
  last : ∃ rest c, s = rest ++ [c] ∧ isBlank c = false

theorem Solid.ends {c d : Char} {inner : List Char} (hc : isBlank c = false)
    (hd : isBlank d = false) : Solid (c :: (inner ++ [d])) where
  head := ⟨c, _, rfl, hc⟩
  last := ⟨c :: inner, d, rfl, hd⟩

theorem trimStart_blanks_append (b : Blanks) (s : List Char) :
    trimStart (b.text ++ s) = trimStart s :=
  List.dropWhile_append_of_pos fun _ hc => b.isBlank_of_mem hc

theorem trimStart_of_head {c : Char} (hc : isBlank c = false) (rest : List Char) :
    trimStart (c :: rest) = c :: rest := by
  rw [trimStart, List.dropWhile_cons_of_neg (by simp [hc])]

theorem trimEnd_append_blanks (b : Blanks) (s : List Char) :
    trimEnd (s ++ b.text) = trimEnd s := by
  have h : (s.reverse).dropWhile isBlank = (b.text.reverse ++ s.reverse).dropWhile isBlank :=
    (List.dropWhile_append_of_pos fun _ hc => b.isBlank_of_mem (List.mem_reverse.1 hc)).symm
  rw [trimEnd, List.reverse_append, ← h, trimEnd]

theorem trimEnd_of_last {c : Char} (hc : isBlank c = false) (rest : List Char) :
    trimEnd (rest ++ [c]) = rest ++ [c] := by
  rw [trimEnd, List.reverse_append, List.reverse_singleton, List.singleton_append,
    List.dropWhile_cons_of_neg (by simp [hc]), List.reverse_cons, List.reverse_reverse]

section Padding

variable {core core' : List Char}

/-- Blanks around a solid text are what is trimmed off. -/
theorem Solid.trim_padded (h : Solid core) (front behind : Blanks) :
    trim (front.text ++ core ++ behind.text) = core := by
  obtain ⟨c, rest, rfl, hc⟩ := h.head
  obtain ⟨rest', d, hd, hlast⟩ := h.last
  rw [trim, List.append_assoc, trimStart_blanks_append, List.cons_append, trimStart_of_head hc,
    ← List.cons_append, trimEnd_append_blanks, hd, trimEnd_of_last hlast]

theorem Solid.takeWhile_padded (h : Solid core) (front : Blanks) (rest : List Char) :
    (front.text ++ core ++ rest).takeWhile isBlank = front.text := by
  obtain ⟨c, tail, rfl, hc⟩ := h.head
  rw [List.append_assoc, List.takeWhile_append_of_pos fun _ hb => front.isBlank_of_mem hb,
    List.cons_append, List.takeWhile_cons_of_neg (by simp [hc]), List.append_nil]

/-- How blanks lie around a solid text can be told from the whole. -/
theorem Solid.padded_inj (h : Solid core) (h' : Solid core') {front front' behind behind' : Blanks}
    (heq : front.text ++ core ++ behind.text = front'.text ++ core' ++ behind'.text) :
    front = front' ∧ core = core' ∧ behind = behind' := by
  have hfront : front.text = front'.text := by
    rw [← h.takeWhile_padded front behind.text, heq, h'.takeWhile_padded]
  have hcore : core = core' := by
    rw [← h.trim_padded front behind, heq, h'.trim_padded]
  refine ⟨Blanks.ext_text hfront, hcore, Blanks.ext_text ?_⟩
  rw [hfront, hcore] at heq
  exact List.append_cancel_left heq

end Padding

end Text

namespace Schema

/-- An identifier. -/
structure Identifier where
  text : List Char
  spelled : isIdentifier text = true

/-- Whether a character may stand in an identifier. -/
def isWordChar (c : Char) : Bool := c.isAlphanum || c == '_'

theorem isDigit_iff {c : Char} : c.isDigit = true ↔ 48 ≤ c.toNat ∧ c.toNat ≤ 57 := by
  have h : c.isDigit = (decide (48 ≤ c.toNat) && decide (c.toNat ≤ 57)) := rfl
  rw [h, Bool.and_eq_true, decide_eq_true_iff, decide_eq_true_iff]

theorem isAlpha_iff {c : Char} :
    c.isAlpha = true ↔ (65 ≤ c.toNat ∧ c.toNat ≤ 90) ∨ (97 ≤ c.toNat ∧ c.toNat ≤ 122) := by
  have h : c.isAlpha = (decide (65 ≤ c.toNat ∧ c.toNat ≤ 90)
      || (decide (97 ≤ c.toNat) && decide (c.toNat ≤ 122))) := rfl
  rw [h, Bool.or_eq_true, Bool.and_eq_true, decide_eq_true_iff, decide_eq_true_iff, decide_eq_true_iff]

theorem isWordChar_iff {c : Char} :
    isWordChar c = true ↔ (c.isAlpha = true ∨ c.isDigit = true) ∨ c = '_' := by
  have h : isWordChar c = ((c.isAlpha || c.isDigit) || c == '_') := rfl
  rw [h, Bool.or_eq_true, Bool.or_eq_true, beq_iff_eq]

theorem Identifier.isWordChar_of_mem (n : Identifier) {c : Char} (hc : c ∈ n.text) :
    isWordChar c = true := by
  obtain ⟨_ | ⟨d, rest⟩, hspelled⟩ := n
  · simp at hc
  · simp only [isIdentifier, Bool.and_eq_true, List.all_eq_true] at hspelled
    rcases List.mem_cons.1 hc with rfl | hmem
    · have hstart := hspelled.1
      rw [Bool.or_eq_true, beq_iff_eq] at hstart
      exact isWordChar_iff.2 (hstart.imp_left Or.inl)
    · exact hspelled.2 c hmem

theorem Identifier.ne_nil (n : Identifier) : n.text ≠ [] := by
  intro h
  have := n.spelled
  simp [h, isIdentifier] at this

theorem bounds_of_isWordChar {c : Char} (hc : isWordChar c = true) :
    (48 ≤ c.toNat ∧ c.toNat ≤ 57) ∨ (65 ≤ c.toNat ∧ c.toNat ≤ 90) ∨
      (97 ≤ c.toNat ∧ c.toNat ≤ 122) ∨ c.toNat = 95 := by
  rw [isWordChar_iff, isAlpha_iff, isDigit_iff] at hc
  rcases hc with ((h | h) | h) | h
  · exact .inr (.inl h)
  · exact .inr (.inr (.inl h))
  · exact .inl h
  · exact .inr (.inr (.inr (by rw [h]; rfl)))

/-- No blank stands in an identifier. -/
theorem isBlank_of_isWordChar {c : Char} (hc : isWordChar c = true) : Text.isBlank c = false := by
  have hbounds := bounds_of_isWordChar hc
  simp only [Text.isBlank, Bool.or_eq_false_iff, Bool.and_eq_false_iff, decide_eq_false_iff_not,
    beq_eq_false_iff_ne]
  omega

theorem Identifier.solid (n : Identifier) : Text.Solid n.text where
  head := by
    obtain ⟨c, rest, h⟩ := List.exists_cons_of_ne_nil n.ne_nil
    exact ⟨c, rest, h, isBlank_of_isWordChar (n.isWordChar_of_mem (by simp [h]))⟩
  last := by
    refine ⟨n.text.dropLast, n.text.getLast n.ne_nil, (List.dropLast_concat_getLast _).symm, ?_⟩
    exact isBlank_of_isWordChar (n.isWordChar_of_mem (List.getLast_mem _))

end Schema

namespace TypeExpression

open Text (Blanks Solid isBlank trim trimStart)
open Schema (Identifier isWordChar isBlank_of_isWordChar)

/-- A derivation of a type expression, with the blanks at each place.  The gap stands between the
word and the opening bracket. -/
inductive Spelling
  | name (front : Blanks) (identifier : Identifier) (behind : Blanks)
  | set (front gap : Blanks) (element : Spelling) (behind : Blanks)
  | map (front gap : Blanks) (key value : Spelling) (behind : Blanks)

namespace Spelling

/-- The text that is derived. -/
def text : Spelling → List Char
  | name front identifier behind => front.text ++ identifier.text ++ behind.text
  | set front gap element behind =>
    front.text ++ ("Set".toList ++ gap.text ++ '<' :: (element.text ++ ['>'])) ++ behind.text
  | map front gap key value behind =>
    front.text
      ++ ("Map".toList ++ gap.text ++ '<' :: (key.text ++ ([','] ++ value.text) ++ ['>']))
      ++ behind.text

/-- The type expression that is derived. -/
def expression : Spelling → TypeExpression
  | name _ identifier _ => .name (String.ofList identifier.text)
  | set _ _ element _ => .set element.expression
  | map _ _ key value _ => .map key.expression value.expression

end Spelling

/-! ### Brackets -/

/-- A text is bracketed exactly if it is the word, blanks, and something between brackets. -/
theorem bracketed?_eq_some_iff {word : String} {s inner : List Char} :
    bracketed? word s = some inner ↔
      ∃ gap : Blanks, s = word.toList ++ gap.text ++ '<' :: (inner ++ ['>']) := by
  constructor
  · intro h
    unfold bracketed? at h
    split at h
    · rename_i hword
      obtain ⟨tail, rfl⟩ := List.isPrefixOf_iff_prefix.1 hword
      rw [List.drop_left] at h
      split at h
      · rename_i rest hrest
        obtain ⟨hlast, hinner⟩ := Option.ite_none_right_eq_some.1 h
        obtain rfl := Option.some.inj hinner
        refine ⟨Blanks.front tail, ?_⟩
        have hsplit := Blanks.front_append_trimStart tail
        obtain ⟨inner, rfl⟩ := List.getLast?_eq_some_iff.1 hlast
        rw [List.dropLast_concat, ← hrest, List.append_assoc, hsplit]
      · cases h
    · cases h
  · rintro ⟨gap, rfl⟩
    have hword : word.toList.isPrefixOf
        (word.toList ++ gap.text ++ '<' :: (inner ++ ['>'])) = true :=
      List.isPrefixOf_iff_prefix.2 ⟨_, (List.append_assoc _ _ _).symm⟩
    have hopen : trimStart ((word.toList ++ gap.text ++ '<' :: (inner ++ ['>'])).drop
        word.toList.length) = '<' :: (inner ++ ['>']) := by
      rw [List.append_assoc, List.drop_left, Text.trimStart_blanks_append,
        Text.trimStart_of_head rfl]
    simp only [bracketed?, hword, if_true, hopen, List.getLast?_concat, List.dropLast_concat]

/-- There is no bracket in an identifier. -/
theorem bracketed?_identifier (word : String) (n : Identifier) :
    bracketed? word n.text = none := by
  rw [Option.eq_none_iff_forall_not_mem]
  intro inner h
  obtain ⟨gap, heq⟩ := bracketed?_eq_some_iff.1 h
  have hopen : isWordChar '<' = true := n.isWordChar_of_mem (by simp [heq])
  exact absurd hopen (by decide)

/-! ### Cutting at a comma -/

/-- Where at least so many brackets are open, cutting goes past a text, whatever is behind it. -/
def PassedOver (least : Nat) (s : List Char) : Prop :=
  ∀ depth rest, least ≤ depth →
    cutAtComma? depth (s ++ rest) = (cutAtComma? depth rest).map fun p => (s ++ p.1, p.2)

namespace PassedOver

variable {least : Nat} {s t : List Char}

theorem nil : PassedOver least [] := by
  intro depth rest _
  simp

theorem append (hs : PassedOver least s) (ht : PassedOver least t) :
    PassedOver least (s ++ t) := by
  intro depth rest hdepth
  rw [List.append_assoc, hs depth _ hdepth, ht depth _ hdepth, Option.map_map]
  simp [Function.comp_def]

theorem mono {more : Nat} (h : PassedOver least s) (hmore : least ≤ more) : PassedOver more s :=
  fun depth rest hdepth => h depth rest (Nat.le_trans hmore hdepth)

theorem plain (h : ∀ c ∈ s, c ≠ ',' ∧ c ≠ '<' ∧ c ≠ '>') : PassedOver least s := by
  induction s with
  | nil => exact nil
  | cons c s ih =>
    obtain ⟨hcomma, hopen, hclose⟩ := h c List.mem_cons_self
    intro depth rest hdepth
    have hrest := ih (fun d hd => h d (List.mem_cons_of_mem _ hd)) depth rest hdepth
    rw [List.cons_append, cutAtComma?, if_neg (by simp [hcomma]), if_neg (by simp [hclose])]
    simp [hopen, hclose, hrest, Function.comp_def]

theorem blanks (b : Blanks) : PassedOver least b.text := by
  refine plain fun c hc => ?_
  have hblank := b.isBlank_of_mem hc
  refine ⟨?_, ?_, ?_⟩ <;> rintro rfl <;> exact absurd hblank (by decide)

theorem identifier (n : Identifier) : PassedOver least n.text := by
  refine plain fun c hc => ?_
  have hword := n.isWordChar_of_mem hc
  refine ⟨?_, ?_, ?_⟩ <;> rintro rfl <;> exact absurd hword (by decide)

/-- In brackets a comma is nothing special. -/
theorem comma : PassedOver 1 [','] := by
  intro depth rest hdepth
  have hne : depth ≠ 0 := Nat.one_le_iff_ne_zero.1 hdepth
  simp [cutAtComma?, hne]

theorem brackets (h : PassedOver (least + 1) s) : PassedOver least ('<' :: (s ++ ['>'])) := by
  intro depth rest hdepth
  have hopen : ∀ t, cutAtComma? depth ('<' :: t) =
      (cutAtComma? (depth + 1) t).map fun p => ('<' :: p.1, p.2) := by
    intro t
    simp [cutAtComma?]
  have hclose : cutAtComma? (depth + 1) ('>' :: rest) =
      (cutAtComma? depth rest).map fun p => ('>' :: p.1, p.2) := by
    simp [cutAtComma?]
  rw [List.cons_append, hopen, List.append_assoc, h _ _ (Nat.succ_le_succ hdepth),
    List.singleton_append, hclose]
  simp [Function.comp_def]

end PassedOver

/-- Every bracket of a spelling is closed in it, and its commas stand in brackets. -/
theorem Spelling.passedOver : ∀ d : Spelling, PassedOver 0 d.text
  | name front identifier behind =>
    ((PassedOver.blanks front).append (.identifier identifier)).append (.blanks behind)
  | set front gap element behind =>
    have hword : PassedOver 0 "Set".toList := .plain (by simp)
    have hinner := (element.passedOver.mono (Nat.zero_le 1)).brackets
    ((PassedOver.blanks front).append ((hword.append (.blanks gap)).append hinner)).append
      (.blanks behind)
  | map front gap key value behind =>
    have hword : PassedOver 0 "Map".toList := .plain (by simp)
    have hkey := key.passedOver.mono (Nat.zero_le 1)
    have hvalue := value.passedOver.mono (Nat.zero_le 1)
    have hinner := (hkey.append (PassedOver.comma.append hvalue)).brackets
    ((PassedOver.blanks front).append ((hword.append (.blanks gap)).append hinner)).append
      (.blanks behind)

/-- A map is cut between its key and its value. -/
theorem Spelling.cutAtComma?_text (d : Spelling) (rest : List Char) :
    cutAtComma? 0 (d.text ++ ',' :: rest) = some (d.text, rest) := by
  rw [d.passedOver 0 _ (Nat.le_refl 0), cutAtComma?, if_pos ⟨rfl, rfl⟩, Option.map_some,
    List.append_nil]

theorem eq_of_cutAtComma? {depth : Nat} {s : List Char} {p : List Char × List Char}
    (h : cutAtComma? depth s = some p) : s = p.1 ++ ',' :: p.2 := by
  induction s generalizing depth p with
  | nil => cases h
  | cons c rest ih =>
    rw [cutAtComma?] at h
    split at h
    · rename_i hcut
      obtain rfl := Option.some.inj h
      rw [hcut.1, List.nil_append]
    · split at h
      · cases h
      · obtain ⟨q, hq, rfl⟩ := Option.map_eq_some_iff.1 h
        rw [ih hq, List.cons_append]

/-! ### Reading -/

namespace Spelling

/-- A spelling without the blanks at both ends. -/
def core : Spelling → List Char
  | name _ identifier _ => identifier.text
  | set _ gap element _ => "Set".toList ++ gap.text ++ '<' :: (element.text ++ ['>'])
  | map _ gap key value _ =>
    "Map".toList ++ gap.text ++ '<' :: (key.text ++ ([','] ++ value.text) ++ ['>'])

theorem solid_core (d : Spelling) : Solid d.core := by
  cases d with
  | name _ identifier _ => exact identifier.solid
  | set _ gap element _ =>
    exact ⟨⟨'S', _, rfl, rfl⟩, ⟨"Set".toList ++ gap.text ++ '<' :: element.text, '>', by
      simp [core], rfl⟩⟩
  | map _ gap key value _ =>
    exact ⟨⟨'M', _, rfl, rfl⟩, ⟨"Map".toList ++ gap.text ++ '<' :: (key.text ++ ([','] ++ value.text)),
      '>', by simp [core], rfl⟩⟩

theorem trim_text (d : Spelling) : trim d.text = d.core := by
  have h := d.solid_core
  cases d with
  | name front _ behind => exact h.trim_padded front behind
  | set front _ _ behind => exact h.trim_padded front behind
  | map front _ _ _ behind => exact h.trim_padded front behind

end Spelling

theorem bracketed?_other {word : String} {s : List Char} (h : ¬ word.toList <+: s) :
    bracketed? word s = none := by
  rw [bracketed?, if_neg]
  exact fun hword => h (List.isPrefixOf_iff_prefix.1 hword)

/-- How an expression is read, without the bounds that reading it ends by. -/
theorem parse?_eq (s : List Char) :
    parse? s =
      match bracketed? "Set" (trim s) with
      | some inner => (parse? inner).map set
      | none =>
        match bracketed? "Map" (trim s) with
        | some inner =>
          match cutAtComma? 0 inner with
          | some (k, v) => do return map (← parse? k) (← parse? v)
          | none => none
        | none =>
          if Schema.isIdentifier (trim s) then some (name (String.ofList (trim s))) else none := by
  rw [parse?]
  split
  · next hset => simp only [hset]
  · next hset =>
    split
    · next hmap => split <;> next hcut => simp only [hset, hmap, hcut]
    · next hmap => simp only [hset, hmap]

/-- What is spelled is read. -/
theorem parse?_text (d : Spelling) : parse? d.text = some d.expression := by
  induction d with
  | name front identifier behind =>
    have htrim : trim (Spelling.name front identifier behind).text = identifier.text :=
      Spelling.trim_text _
    have hset := bracketed?_identifier "Set" identifier
    have hmap := bracketed?_identifier "Map" identifier
    rw [← htrim] at hset hmap
    simp only [parse?_eq, hset, hmap]
    rw [htrim, if_pos identifier.spelled, Spelling.expression]
  | set front gap element behind ih =>
    have hset : bracketed? "Set" (trim (Spelling.set front gap element behind).text) =
        some element.text := by
      rw [Spelling.trim_text]
      exact bracketed?_eq_some_iff.2 ⟨gap, rfl⟩
    rw [parse?_eq, hset]
    simp only [ih, Option.map_some, Spelling.expression]
  | map front gap key value behind ihkey ihvalue =>
    have hset : bracketed? "Set" (trim (Spelling.map front gap key value behind).text) = none := by
      rw [Spelling.trim_text]
      exact bracketed?_other (by simp [Spelling.core])
    have hmap : bracketed? "Map" (trim (Spelling.map front gap key value behind).text) =
        some (key.text ++ ',' :: value.text) := by
      rw [Spelling.trim_text]
      exact bracketed?_eq_some_iff.2 ⟨gap, rfl⟩
    rw [parse?_eq, hset, hmap]
    simp only [key.cutAtComma?_text, ihkey, ihvalue]
    rfl

/-- Nothing else is read. -/
theorem exists_spelling_of_parse? {s : List Char} {t : TypeExpression} (h : parse? s = some t) :
    ∃ d : Spelling, d.text = s ∧ d.expression = t := by
  fun_induction parse? s generalizing t with
  | case1 s inner hset ih =>
    obtain ⟨element, hread, rfl⟩ := Option.map_eq_some_iff.1 h
    obtain ⟨d, rfl, rfl⟩ := ih hread
    obtain ⟨gap, hcore⟩ := bracketed?_eq_some_iff.1 hset
    obtain ⟨front, behind, hs⟩ := Blanks.exists_append_trim s
    refine ⟨.set front gap d behind, ?_, rfl⟩
    rw [hs, hcore, Spelling.text]
  | case2 s hset inner hmap key value hcut ihkey ihvalue =>
    obtain ⟨k, hk, hrest⟩ := Option.bind_eq_some_iff.1 h
    obtain ⟨v, hv, ht⟩ := Option.bind_eq_some_iff.1 hrest
    obtain rfl := Option.some.inj ht
    obtain ⟨d, rfl, rfl⟩ := ihkey hk
    obtain ⟨d', rfl, rfl⟩ := ihvalue hv
    obtain ⟨gap, hcore⟩ := bracketed?_eq_some_iff.1 hmap
    obtain ⟨front, behind, hs⟩ := Blanks.exists_append_trim s
    refine ⟨.map front gap d d' behind, ?_, rfl⟩
    rw [hs, hcore, eq_of_cutAtComma? hcut, Spelling.text]
    rfl
  | case3 s hset inner hmap hcut => cases h
  | case4 s hset hmap hname =>
    obtain rfl := Option.some.inj h
    obtain ⟨front, behind, hs⟩ := Blanks.exists_append_trim s
    exact ⟨.name front ⟨trim s, hname⟩ behind, hs.symm, rfl⟩
  | case5 s hset hmap hname => cases h

/-! ### One derivation -/

theorem bracket_inj {word : String} {gap gap' : Blanks} {inner inner' : List Char}
    (h : word.toList ++ gap.text ++ '<' :: (inner ++ ['>']) =
      word.toList ++ gap'.text ++ '<' :: (inner' ++ ['>'])) : gap = gap' ∧ inner = inner' := by
  have hsolid : Solid ('<' :: (inner ++ ['>'])) := .ends rfl rfl
  have hsolid' : Solid ('<' :: (inner' ++ ['>'])) := .ends rfl rfl
  rw [List.append_assoc, List.append_assoc, List.append_cancel_left_eq] at h
  have hpadded : gap.text ++ '<' :: (inner ++ ['>']) ++ Blanks.none.text =
      gap'.text ++ '<' :: (inner' ++ ['>']) ++ Blanks.none.text :=
    congrArg (· ++ Blanks.none.text) h
  obtain ⟨hgap, hinner, -⟩ := hsolid.padded_inj hsolid' hpadded
  exact ⟨hgap, by simpa using hinner⟩

namespace Spelling

theorem expression_congr {d d' : Spelling} (h : d.text = d'.text) :
    d.expression = d'.expression := by
  have hread := parse?_text d
  rw [h, parse?_text d'] at hread
  exact (Option.some.inj hread).symm

/-- A text is spelled in one way only, down to its blanks. -/
theorem eq_of_text_eq {d d' : Spelling} (h : d.text = d'.text) : d = d' := by
  induction d generalizing d' with
  | name front identifier behind =>
    cases d' with
    | name front' identifier' behind' =>
      obtain ⟨rfl, hname, rfl⟩ := identifier.solid.padded_inj identifier'.solid h
      obtain ⟨_, _⟩ := identifier
      obtain ⟨_, _⟩ := identifier'
      cases hname
      rfl
    | set => cases expression_congr h
    | map => cases expression_congr h
  | set front gap element behind ih =>
    cases d' with
    | name => cases expression_congr h
    | set front' gap' element' behind' =>
      obtain ⟨rfl, hcore, rfl⟩ := (solid_core (set front gap element behind)).padded_inj
        (solid_core (set front' gap' element' behind')) h
      obtain ⟨rfl, hinner⟩ := bracket_inj hcore
      rw [ih hinner]
    | map => cases expression_congr h
  | map front gap key value behind ihkey ihvalue =>
    cases d' with
    | name => cases expression_congr h
    | set => cases expression_congr h
    | map front' gap' key' value' behind' =>
      obtain ⟨rfl, hcore, rfl⟩ := (solid_core (map front gap key value behind)).padded_inj
        (solid_core (map front' gap' key' value' behind')) h
      obtain ⟨rfl, hinner⟩ := bracket_inj hcore
      have hcut := key.cutAtComma?_text value.text
      have hcut' := key'.cutAtComma?_text value'.text
      obtain ⟨hkey, hvalue⟩ : key.text = key'.text ∧ value.text = value'.text := by
        rw [List.singleton_append, List.singleton_append] at hinner
        rw [hinner, hcut'] at hcut
        simpa [eq_comm] using hcut
      rw [ihkey hkey, ihvalue hvalue]

end Spelling

/-! ### Writing -/

/-- The blanks at one part of a type expression: in front of it, between its word and the bracket,
and behind it. -/
structure Margins where
  front : Blanks
  gap : Blanks
  behind : Blanks

/-- Whether all the names in a type expression are identifiers. -/
def Nameable : TypeExpression → Prop
  | name text => Schema.isIdentifier text.toList = true
  | set element => element.Nameable
  | map key value => key.Nameable ∧ value.Nameable

/-- A type expression written with the given blanks at each of its parts.  A part is told by the way
that leads to it, on which `true` stands for the value of a map, and `false` for its key or for the
element of a set. -/
def write (margins : List Bool → Margins) : TypeExpression → List Char
  | name text => (margins []).front.text ++ text.toList ++ (margins []).behind.text
  | set element =>
    (margins []).front.text ++ "Set".toList ++ (margins []).gap.text
      ++ '<' :: element.write (fun way => margins (false :: way))
      ++ '>' :: (margins []).behind.text
  | map key value =>
    (margins []).front.text ++ "Map".toList ++ (margins []).gap.text
      ++ '<' :: key.write (fun way => margins (false :: way))
      ++ ',' :: value.write (fun way => margins (true :: way))
      ++ '>' :: (margins []).behind.text

/-- What is written is a spelling. -/
theorem exists_spelling_of_nameable {t : TypeExpression} (ht : t.Nameable)
    (margins : List Bool → Margins) :
    ∃ d : Spelling, d.text = t.write margins ∧ d.expression = t := by
  induction t generalizing margins with
  | name text =>
    exact ⟨.name (margins []).front ⟨text.toList, ht⟩ (margins []).behind, rfl, by
      simp [Spelling.expression]⟩
  | set element ih =>
    obtain ⟨d, hd, rfl⟩ := ih ht fun way => margins (false :: way)
    refine ⟨.set (margins []).front (margins []).gap d (margins []).behind, ?_, rfl⟩
    simp [Spelling.text, write, hd]
  | map key value ihkey ihvalue =>
    obtain ⟨d, hd, rfl⟩ := ihkey ht.1 fun way => margins (false :: way)
    obtain ⟨d', hd', rfl⟩ := ihvalue ht.2 fun way => margins (true :: way)
    refine ⟨.map (margins []).front (margins []).gap d d' (margins []).behind, ?_, rfl⟩
    simp [Spelling.text, write, hd, hd']

/-- The type expressions that are read are exactly those of the grammar: a text is read as what it
is a spelling of, it has no two spellings, and what is written with any blanks between the parts is
read back. -/
theorem parse?_exact :
    (∀ s t, parse? s = some t ↔ ∃ d : Spelling, d.text = s ∧ d.expression = t) ∧
    (∀ d d' : Spelling, d.text = d'.text → d = d') ∧
    ∀ t : TypeExpression, t.Nameable → ∀ margins, parse? (t.write margins) = some t := by
  refine ⟨fun s t => ⟨exists_spelling_of_parse?, ?_⟩, fun d d' => Spelling.eq_of_text_eq, ?_⟩
  · rintro ⟨d, rfl, rfl⟩
    exact parse?_text d
  · intro t ht margins
    obtain ⟨d, hd, rfl⟩ := exists_spelling_of_nameable ht margins
    rw [← hd, parse?_text]

/-- With a space at each place the key of a map is read as the set that it is. -/
theorem parse?_exact_of_padded :
    (map (set (name "Tag")) (name "String")).Nameable ∧
      parse? " Map < Set < Tag > , String > ".toList =
        some (map (set (name "Tag")) (name "String")) := by
  have hnameable : (map (set (name "Tag")) (name "String")).Nameable := by
    simp only [Nameable]
    decide
  let space : Blanks := ⟨[' '], rfl⟩
  exact ⟨hnameable, parse?_exact.2.2 _ hnameable fun _ => ⟨space, space, space⟩⟩

end TypeExpression

end VersionedRecords
