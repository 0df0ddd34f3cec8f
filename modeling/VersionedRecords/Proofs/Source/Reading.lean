import VersionedRecords.Source.Parse

/-!
Reading structs and attributes from trees.

What a rule makes of the trees in front of it is told rule by rule: each lemma says what is given,
what is left to read and what is written, whatever stands behind.
-/

namespace VersionedRecords.Source.Rule

open Source.Tree (startsWith startsWord startsIdentifier startsGroup startsLifetime next)

variable {α β : Type}

/-! ### Steps -/

section Steps

variable {s : Reading} {ts w : List Tree}

@[simp] theorem bind_eq (r : Rule α) (f : α → Rule β) (s : Reading) :
    (r >>= f) s = (r s).bind fun p => f p.1 p.2 := rfl

@[simp] theorem pure_eq (a : α) (s : Reading) : (pure a : Rule α) s = some (a, s) := rfl

@[simp] theorem map_eq (f : α → β) (r : Rule α) (s : Reading) :
    (f <$> r) s = (r s).map fun p => (f p.1, p.2) := by
  cases h : r s <;> simp [Functor.map, StateT.map, h]

@[simp] theorem discard_eq (r : Rule α) (s : Reading) :
    (discard r : Rule Unit) s = (r s).map fun p => ((), p.2) := by
  exact map_eq _ r s

@[simp] theorem failure_eq (s : Reading) : (failure : Rule α) s = none := rfl

@[simp] theorem rest_eq (s : Reading) : rest s = some (s.rest, s) := rfl

@[simp] theorem sees_eq (p : List Tree → Bool) (s : Reading) : sees p s = some (p s.rest, s) := rfl

@[simp] theorem require_true (s : Reading) : require true s = some ((), s) := rfl

@[simp] theorem require_false (s : Reading) : require false s = none := rfl

@[simp] theorem write_eq (ts : List Tree) (s : Reading) :
    write ts s = some ((), ⟨s.rest, ts.reverse ++ s.written⟩) := by
  rw [← List.reverseAux_eq]
  rfl

/-- Reading one tree as it is. -/
@[simp] theorem take_one (t : Tree) : take 1 ⟨t :: ts, w⟩ = some ((), ⟨ts, t :: w⟩) := by
  rfl

@[simp] theorem apart_eq (r : Rule α) (s : Reading) :
    apart r s =
      (r ⟨s.rest, []⟩).map fun p => ((p.1, p.2.written.reverse), ⟨p.2.rest, s.written⟩) := by
  simp only [apart]
  cases h : r ⟨s.rest, []⟩ <;> rfl

/-- A mark that is not there. -/
theorem mark?_of_not {m : String} (h : startsWith m s.rest = false) :
    mark? m s = some (false, s) := by
  simp [mark?, h]

theorem word?_of_not {words : List String} (h : startsWord words s.rest = false) :
    word? words s = some (false, s) := by
  simp [word?, h]

@[simp] theorem anyWord_word (n : String) :
    anyWord ⟨.word n :: ts, w⟩ = some (n, ⟨ts, .word n :: w⟩) := rfl

theorem identifier_word {n : String} (hn : isIdentifier n = true) :
    identifier ⟨.word n :: ts, w⟩ = some (n, ⟨ts, .word n :: w⟩) := by
  simp [identifier, startsIdentifier, hn]

theorem identifier_of_not (h : startsIdentifier s.rest = false) : identifier s = none := by
  simp [identifier, h]

/-- Reading what stands in a group. -/
theorem within_group {b : Bracket} {r : Rule α} {content : List Tree} {a : α}
    (h : r ⟨content, []⟩ = some (a, ⟨[], content.reverse⟩)) :
    within b r ⟨.group b content :: ts, w⟩ = some (a, ⟨ts, .group b content :: w⟩) := by
  simp [within, h]

theorem whole?_of_some {r : Rule α} {a : α} (h : r ⟨ts, []⟩ = some (a, ⟨[], w⟩)) :
    r.whole? ts = some a := by
  simp [whole?, StateT.run, h]

theorem whole?_of_none {r : Rule α} (h : r ⟨ts, []⟩ = none) : r.whole? ts = none := by
  simp [whole?, StateT.run, h]

end Steps

/-! ### Names -/

/-- A word that may be the name of a type. -/
def NamesType (n : String) : Prop := isIdentifier n = true ∨ n = "Self"

/-- A name is none of the words that mean something else where a type begins. -/
theorem NamesType.not_startsWord {n : String} (h : NamesType n) (words : List String)
    (hwords : words.all (fun u => keywords.contains u && u != "Self") = true) (ts : List Tree) :
    startsWord words (.word n :: ts) = false := by
  rw [Tree.startsWord, Bool.eq_false_iff]
  intro hmem
  have hn := List.all_eq_true.1 hwords n (by simpa using hmem)
  rw [Bool.and_eq_true, bne_iff_ne] at hn
  rcases h with h | h
  · rw [isIdentifier, hn.1] at h
    cases h
  · exact hn.2 h

theorem NamesType.startsPath {n : String} (h : NamesType n) {words : List String}
    (hself : words.contains "Self" = true) (ts : List Tree) :
    startsIdentifier (.word n :: ts) = true ∨ startsWord words (.word n :: ts) = true := by
  rcases h with h | rfl
  · exact .inl h
  · exact .inr hself

/-- What may follow the name of a type: a mark that does not go on with the type. -/
def EndsType (ts : List Tree) : Prop :=
  ∃ c joined rest, ts = .mark c joined :: rest ∧ (c = ',' ∨ c = '>')

theorem EndsType.not_startsWith {ts : List Tree} (h : EndsType ts) {m : String} {d : Char}
    {ds : List Char} (hm : m.toList = d :: ds) (hcomma : d ≠ ',') (hclose : d ≠ '>') :
    startsWith m ts = false := by
  obtain ⟨c, joined, rest, rfl, hc⟩ := h
  have hne : d ≠ c := by
    rcases hc with rfl | rfl
    · exact hcomma
    · exact hclose
  rw [Tree.startsWith, hm]
  cases ds <;> cases joined <;> simp [Tree.marks?, hne]

/-- The form of a type that is just a name. -/
def nameForm (n : String) : TypeForm := .path ⟨true, true, ⟨n, none⟩⟩

/-- A grammar that reads names as types. -/
def ReadsNames (g : Grammar) : Prop :=
  ∀ {n : String} {ts w : List Tree}, NamesType n → EndsType ts →
    g.type true ⟨.word n :: ts, w⟩ = some (nameForm n, ⟨ts, .word n :: w⟩)

section Names

variable {g : Grammar} {n : String} {ts w : List Tree}

theorem pathPart_name (hn : NamesType n) (hts : EndsType ts) :
    pathPart g false ⟨.word n :: ts, w⟩ = some (⟨n, none⟩, ⟨ts, .word n :: w⟩) := by
  have hword := hn.not_startsWord ["super", "self", "crate", "try"] (by decide) ts
  have hname : (startsWord ["Self"] (.word n :: ts) || startsIdentifier (.word n :: ts)) = true := by
    rw [Bool.or_eq_true]
    exact (hn.startsPath rfl ts).symm
  have hangle : startsMark "<" ["<=", "<<="] ts = false := by
    rw [startsMark, hts.not_startsWith (m := "<") rfl (by decide) (by decide), Bool.false_and]
  have hcolons := hts.not_startsWith (m := "::") rfl (by decide) (by decide)
  simp [pathPart, hword, hname, hangle, hcolons]

/-- Nothing goes on with a path behind its last part. -/
theorem morePart_end (form : PathForm) (hts : EndsType ts) :
    moreParts g false form ⟨ts, w⟩ = some (form, ⟨ts, w⟩) := by
  have hcolons := hts.not_startsWith (m := "::") rfl (by decide) (by decide)
  simp [moreParts, morePartsUpTo, hcolons]

theorem path_name (hn : NamesType n) (hts : EndsType ts) :
    path g false ⟨.word n :: ts, w⟩ = some (⟨true, true, ⟨n, none⟩⟩, ⟨ts, .word n :: w⟩) := by
  have hglobal : mark? "::" ⟨.word n :: ts, w⟩ = some (false, ⟨.word n :: ts, w⟩) := mark?_of_not rfl
  simp [path, hglobal, pathPart_name hn hts, morePart_end _ hts]

/-- A type that begins with a word is a path, if nothing behind the path goes on with it. -/
theorem type_of_path {form : PathForm} {read written : List Tree} (hn : NamesType n)
    (hhash : startsWith "#" (read ++ ts) = false) (hts : EndsType ts)
    (hpath : path g false ⟨.word n :: (read ++ ts), []⟩ = some (form, ⟨ts, written.reverse⟩)) :
    Rule.type g true ⟨.word n :: (read ++ ts), w⟩ =
      some (.path form, ⟨ts, written.reverse ++ w⟩) := by
  have hfor := hn.not_startsWord ["for"] (by decide) (read ++ ts)
  have hfn := hn.not_startsWord ["fn", "unsafe", "extern"] (by decide) (read ++ ts)
  have hbuiltin : startsBuiltin (.word n :: (read ++ ts)) = false := by
    have hnext : next (.word n :: (read ++ ts)) = read ++ ts := rfl
    rw [startsBuiltin, hnext, hhash, Bool.and_false]
  have hstart : startsIdentifier (.word n :: (read ++ ts)) = true ∨
      startsWord pathWords (.word n :: (read ++ ts)) = true :=
    hn.startsPath rfl (read ++ ts)
  have hbang := hts.not_startsWith (m := "!") rfl (by decide) (by decide)
  have hplus := hts.not_startsWith (m := "+") rfl (by decide) (by decide)
  have hany : anyPath g false ⟨.word n :: (read ++ ts), []⟩ =
      some ((false, form), ⟨ts, written.reverse⟩) := by
    have hangle : startsWith "<" (.word n :: (read ++ ts)) = false := rfl
    simp [anyPath, hangle, hpath]
  simp [Rule.type, asRead, quantifier?, hfor, hbuiltin, hfn, hstart, namedType, hany, startsMacro,
    startsMark, hbang, hplus]

theorem type_name (hn : NamesType n) (hts : EndsType ts) :
    Rule.type g true ⟨.word n :: ts, w⟩ = some (nameForm n, ⟨ts, .word n :: w⟩) := by
  have hhash : startsWith "#" ([] ++ ts) = false :=
    hts.not_startsWith (m := "#") rfl (by decide) (by decide)
  have hpath : path g false ⟨.word n :: ([] ++ ts), []⟩ =
      some (⟨true, true, ⟨n, none⟩⟩, ⟨ts, [.word n].reverse⟩) := path_name hn hts
  have htype := type_of_path (w := w) hn hhash hts hpath
  exact htype

theorem readsNames_levels (k : Nat) : ReadsNames (Grammar.levels (k + 1)) :=
  fun hn hts => type_name hn hts

end Names

/-! ### Arguments -/

section Arguments

variable {g : Grammar} {ts w : List Tree}

/-- Names with commas between them. -/
def separated (arguments : List String) : List Tree :=
  (arguments.map Tree.word).intersperse (.mark ',' false)

/-- A name among arguments is a type. -/
theorem argument_name (hg : ReadsNames g) {n : String} (hn : NamesType n) (hts : EndsType ts) :
    argument g ⟨.word n :: ts, w⟩ = some (.type [.word n], ⟨ts, .word n :: w⟩) := by
  have hbool := hn.not_startsWord ["true", "false"] (by decide) ts
  have hconstant : startsConstant (.word n :: ts) = false := by
    rw [startsConstant, startsLiteral, hbool]
    · rfl
    all_goals simp
  have hequals := hts.not_startsWith (m := "=") rfl (by decide) (by decide)
  have hcolon := hts.not_startsWith (m := ":") rfl (by decide) (by decide)
  have hlifetime : startsLifetime (.word n :: ts) = false := rfl
  simp [argument, hlifetime, hconstant, typeArgument, hg hn hts, nameForm, TypeForm.isName, mark?,
    hequals, hcolon]

/-- What is noted of names among arguments: each with whether a comma follows. -/
def nameEntries : List String → List (Argument × Bool × List Tree × Bool)
  | [] => []
  | [a] => [(.type [.word a], false, [.word a], false)]
  | a :: b :: rest => (.type [.word a], false, [.word a], true) :: nameEntries (b :: rest)

theorem map_fst_nameEntries (arguments : List String) :
    (nameEntries arguments).map Prod.fst = arguments.map fun a => .type [.word a] := by
  induction arguments using nameEntries.induct with
  | case1 => rfl
  | case2 a => rfl
  | case3 a b rest ih =>
    rw [nameEntries, List.map_cons, ih]
    rfl

/-- With no lifetime among them the entries stay where they are. -/
theorem lifetimesFirst_nameEntries (arguments : List String) :
    lifetimesFirst ((nameEntries arguments).map Prod.snd) = separated arguments := by
  have hnone : ∀ e ∈ (nameEntries arguments).map Prod.snd, e.1 = false := by
    induction arguments using nameEntries.induct with
    | case1 => simp [nameEntries]
    | case2 a => simp [nameEntries]
    | case3 a b rest ih => simpa [nameEntries] using ih
  have hlifetimes : ((nameEntries arguments).map Prod.snd).filter (·.1) = [] := by
    rw [List.filter_eq_nil_iff]
    intro e he
    simp [hnone e he]
  have hothers : ((nameEntries arguments).map Prod.snd).filter (!·.1) =
      (nameEntries arguments).map Prod.snd := by
    rw [List.filter_eq_self]
    intro e he
    simp [hnone e he]
  have hwritten : (((nameEntries arguments).map Prod.snd).flatMap fun e =>
      e.2.1 ++ if e.2.2 then [Tree.mark ',' false] else []) = separated arguments := by
    clear hnone hlifetimes hothers
    induction arguments using nameEntries.induct with
    | case1 => rfl
    | case2 a => rfl
    | case3 a b rest ih =>
      rw [nameEntries, List.map_cons, List.flatMap_cons, ih]
      rfl
  simp only [lifetimesFirst, hlifetimes, hothers, hwritten]
  simp

theorem startsWith_singleton (c d : Char) (joined : Bool) (ts : List Tree) :
    startsWith (String.singleton c) (.mark d joined :: ts) = (c == d) := by
  by_cases h : c = d <;> simp [Tree.startsWith, Tree.marks?, h]

theorem mark_singleton (c : Char) (joined : Bool) :
    mark (String.singleton c) ⟨.mark c joined :: ts, w⟩ = some ((), ⟨ts, .mark c joined :: w⟩) := by
  simp [mark, startsWith_singleton]

theorem entriesUpTo_names (hg : ReadsNames g) {arguments : List String}
    (hnames : ∀ a ∈ arguments, NamesType a) (joined : Bool) {n : Nat} (hn : arguments.length < n) :
    entriesUpTo Argument.isLifetime (argument g) n
        ⟨separated arguments ++ .mark '>' joined :: ts, w⟩ =
      some (nameEntries arguments, ⟨.mark '>' joined :: ts, w⟩) := by
  induction arguments using nameEntries.induct generalizing n with
  | case1 =>
    obtain ⟨n, rfl⟩ := Nat.exists_eq_add_of_lt hn
    have hclose : startsWith ">" (.mark '>' joined :: ts) = true :=
      startsWith_singleton '>' '>' joined ts
    simp [entriesUpTo, separated, hclose, nameEntries]
  | case2 a =>
    obtain ⟨n, rfl⟩ := Nat.exists_eq_add_of_lt hn
    have ha := hnames a List.mem_cons_self
    have hname := argument_name (w := []) hg ha ⟨'>', joined, ts, rfl, .inr rfl⟩
    have hopen : startsWith ">" (.word a :: .mark '>' joined :: ts) = false := rfl
    have hcomma : startsWith "," (.mark '>' joined :: ts) = false :=
      startsWith_singleton ',' '>' joined ts
    simp [entriesUpTo, separated, hopen, hname, hcomma, nameEntries, Argument.isLifetime]
  | case3 a b rest ih =>
    cases n with
    | zero => exact absurd hn (Nat.not_lt_zero _)
    | succ n =>
      have ha := hnames a List.mem_cons_self
      have hrest := ih (fun c hc => hnames c (List.mem_cons_of_mem _ hc)) (Nat.lt_of_succ_lt_succ hn)
      have hsplit : separated (a :: b :: rest) =
          .word a :: .mark ',' false :: separated (b :: rest) := rfl
      rw [hsplit, List.cons_append, List.cons_append]
      generalize separated (b :: rest) ++ .mark '>' joined :: ts = behind at hrest ⊢
      have hname := argument_name (w := []) hg ha ⟨',', false, behind, rfl, .inl rfl⟩
      have hopen : startsWith ">" (.word a :: .mark ',' false :: behind) = false := rfl
      have hcomma : startsWith "," (.mark ',' false :: behind) = true := rfl
      have hmark : mark "," ⟨.mark ',' false :: behind, []⟩ =
          some ((), ⟨behind, [.mark ',' false]⟩) := mark_singleton ',' false
      simp [entriesUpTo, hopen, hname, hcomma, hmark, hrest, nameEntries, Argument.isLifetime]

theorem length_le_length_separated (arguments : List String) :
    arguments.length ≤ (separated arguments).length := by
  induction arguments using nameEntries.induct with
  | case1 => exact Nat.zero_le _
  | case2 a => exact Nat.le_refl _
  | case3 a b rest ih =>
    have hsplit : separated (a :: b :: rest) =
        .word a :: .mark ',' false :: separated (b :: rest) := rfl
    rw [hsplit]
    simp only [List.length_cons] at ih ⊢
    omega

theorem angleArguments_names (hg : ReadsNames g) {arguments : List String}
    (hnames : ∀ a ∈ arguments, NamesType a) (joined : Bool) :
    angleArguments g ⟨.mark '<' false :: (separated arguments ++ .mark '>' joined :: ts), w⟩ =
      some (arguments.map fun a => .type [.word a],
        ⟨ts, (.mark '<' false :: (separated arguments ++ [.mark '>' joined])).reverse ++ w⟩) := by
  have hlength : arguments.length < (separated arguments ++ .mark '>' joined :: ts).length + 1 := by
    have := length_le_length_separated arguments
    simp only [List.length_append]
    omega
  have hentries (v : List Tree) :
      entriesUpTo Argument.isLifetime (argument g) _
        ⟨separated arguments ++ .mark '>' joined :: ts, v⟩ = _ :=
    entriesUpTo_names hg hnames joined hlength
  have hopen : mark "<" ⟨.mark '<' false :: (separated arguments ++ .mark '>' joined :: ts), w⟩ =
      some ((), ⟨separated arguments ++ .mark '>' joined :: ts, .mark '<' false :: w⟩) :=
    mark_singleton '<' false
  have hclose (v : List Tree) : mark ">" ⟨.mark '>' joined :: ts, v⟩ =
      some ((), ⟨ts, .mark '>' joined :: v⟩) := mark_singleton '>' joined
  simp only [angleArguments, angleList, bind_eq, hopen, Option.bind_some, rest_eq, hentries, write_eq,
    hclose, lifetimesFirst_nameEntries, pure_eq, map_fst_nameEntries]
  simp

/-- The trees of a name with names in angle brackets behind it. -/
def applied (n : String) (arguments : List String) (joined : Bool) : List Tree :=
  .word n :: .mark '<' false :: (separated arguments ++ [.mark '>' joined])

/-- A path that is a name with names in angle brackets. -/
theorem path_applied (hg : ReadsNames g) {n : String} (hn : isIdentifier n = true)
    {arguments : List String} (hnames : ∀ a ∈ arguments, NamesType a) (joined : Bool)
    (hts : EndsType ts) :
    path g false ⟨applied n arguments joined ++ ts, w⟩ =
      some (⟨true, false, ⟨n, some (arguments.map fun a => .type [.word a])⟩⟩,
        ⟨ts, (applied n arguments joined).reverse ++ w⟩) := by
  have happlied : applied n arguments joined ++ ts =
      .word n :: .mark '<' false :: (separated arguments ++ .mark '>' joined :: ts) := by
    simp [applied]
  have harguments : angleArguments g
      ⟨.mark '<' false :: (separated arguments ++ .mark '>' joined :: ts), .word n :: w⟩ = _ :=
    angleArguments_names hg hnames joined
  rw [happlied]
  generalize separated arguments ++ .mark '>' joined :: ts = behind at harguments ⊢
  have hword := NamesType.not_startsWord (.inl hn) ["super", "self", "crate", "try"] (by decide)
    (.mark '<' false :: behind)
  have hangle : startsMark "<" ["<=", "<<="] (.mark '<' false :: behind) = true := rfl
  have hcolons : mark? "::" ⟨.mark '<' false :: behind, .word n :: w⟩ =
      some (false, ⟨.mark '<' false :: behind, .word n :: w⟩) := mark?_of_not rfl
  have hglobal : mark? "::" ⟨.word n :: .mark '<' false :: behind, w⟩ =
      some (false, ⟨.word n :: .mark '<' false :: behind, w⟩) := mark?_of_not rfl
  have hidentifier : startsIdentifier (.word n :: .mark '<' false :: behind) = true := hn
  have hpart : pathPart g false ⟨.word n :: .mark '<' false :: behind, w⟩ =
      some (⟨n, some (arguments.map fun a => .type [.word a])⟩,
        ⟨ts, (.mark '<' false :: (separated arguments ++ [.mark '>' joined])).reverse
          ++ .word n :: w⟩) := by
    simp [pathPart, hword, hidentifier, hangle, hcolons, harguments]
  simp [path, hglobal, hpart, morePart_end _ hts, applied]

theorem type_applied (hg : ReadsNames g) {n : String} (hn : isIdentifier n = true)
    {arguments : List String} (hnames : ∀ a ∈ arguments, NamesType a) (joined : Bool)
    (hts : EndsType ts) :
    Rule.type g true ⟨applied n arguments joined ++ ts, w⟩ =
      some (.path ⟨true, false, ⟨n, some (arguments.map fun a => .type [.word a])⟩⟩,
        ⟨ts, (applied n arguments joined).reverse ++ w⟩) := by
  have hpath := path_applied (w := []) hg hn hnames joined hts
  rw [List.append_nil] at hpath
  exact type_of_path (.inl hn) rfl hts hpath

end Arguments

/-! ### Attributes -/

section Attributes

variable {g : Grammar} {ts w : List Tree}

/-- An attribute as it is written. -/
def attributeTrees (content : List Tree) : List Tree := [.mark '#' false, .group .square content]

/-- What stands in the brackets of an attribute is some item. -/
def ReadsItem (g : Grammar) (content : List Tree) (item : AttributeItem) : Prop :=
  attributeItem g ⟨content, []⟩ = some (item, ⟨[], content.reverse⟩)

theorem attributesUpTo_eq {contents : List (List Tree × AttributeItem)}
    (hitems : ∀ c ∈ contents, ReadsItem g c.1 c.2) (hts : startsWith "#" ts = false) {n : Nat}
    (hn : contents.length < n) :
    attributes.attributesUpTo g n ⟨contents.flatMap (fun c => attributeTrees c.1) ++ ts, w⟩ =
      some (contents.map fun c => ⟨c.2, attributeTrees c.1⟩,
        ⟨ts, (contents.flatMap fun c => attributeTrees c.1).reverse ++ w⟩) := by
  induction contents generalizing n w with
  | nil =>
    obtain ⟨n, rfl⟩ := Nat.exists_eq_add_of_lt hn
    simp [attributes.attributesUpTo, hts]
  | cons c contents ih =>
    cases n with
    | zero => exact absurd hn (Nat.not_lt_zero _)
    | succ n =>
      have hrest (v : List Tree) := ih (w := v) (fun d hd => hitems d (List.mem_cons_of_mem _ hd))
        (Nat.lt_of_succ_lt_succ hn)
      rw [List.flatMap_cons, List.append_assoc]
      generalize contents.flatMap (fun c => attributeTrees c.1) ++ ts = behind at hrest ⊢
      have hsplit : attributeTrees c.1 ++ behind =
          .mark '#' false :: .group .square c.1 :: behind := rfl
      have hsharp : startsWith "#" (.mark '#' false :: .group .square c.1 :: behind) = true := rfl
      have hmark : mark "#" ⟨.mark '#' false :: .group .square c.1 :: behind, []⟩ =
          some ((), ⟨.group .square c.1 :: behind, [.mark '#' false]⟩) := mark_singleton '#' false
      have hitem : within .square (attributeItem g)
          ⟨.group .square c.1 :: behind, [.mark '#' false]⟩ =
          some (c.2, ⟨behind, [.group .square c.1, .mark '#' false]⟩) :=
        within_group (hitems c List.mem_cons_self)
      rw [hsplit]
      simp [attributes.attributesUpTo, hsharp, hmark, hitem, hrest, attributeTrees]

theorem attributes_eq {contents : List (List Tree × AttributeItem)}
    (hitems : ∀ c ∈ contents, ReadsItem g c.1 c.2) (hts : startsWith "#" ts = false) :
    attributes g ⟨contents.flatMap (fun c => attributeTrees c.1) ++ ts, w⟩ =
      some (contents.map fun c => ⟨c.2, attributeTrees c.1⟩,
        ⟨ts, (contents.flatMap fun c => attributeTrees c.1).reverse ++ w⟩) := by
  have hlength :
      contents.length < (contents.flatMap (fun c => attributeTrees c.1) ++ ts).length + 1 := by
    have hle : contents.length ≤ (contents.flatMap fun c => attributeTrees c.1).length := by
      induction contents with
      | nil => exact Nat.zero_le _
      | cons c contents ih =>
        have := ih fun d hd => hitems d (List.mem_cons_of_mem _ hd)
        simp only [List.flatMap_cons, List.length_append, List.length_cons, attributeTrees] at this ⊢
        omega
    rw [List.length_append]
    omega
  rw [attributes, bind_eq, rest_eq, Option.bind_some]
  exact attributesUpTo_eq hitems hts hlength

theorem plainPath_word {n : String} (hn : isIdentifier n = true) (hts : startsWith "::" ts = false) :
    plainPath ⟨.word n :: ts, w⟩ = some ((false, [n]), ⟨ts, .word n :: w⟩) := by
  have hglobal : mark? "::" ⟨.word n :: ts, w⟩ = some (false, ⟨.word n :: ts, w⟩) := mark?_of_not rfl
  have hidentifier : startsIdentifier (.word n :: ts) = true := hn
  have hmore : mark? "::" ⟨ts, .word n :: w⟩ = some (false, ⟨ts, .word n :: w⟩) := mark?_of_not hts
  simp [plainPath, plainPath.names, plainPath.nameList, hglobal, hidentifier, hmore]

/-- An attribute that is just a word. -/
theorem readsItem_word {n : String} (hn : isIdentifier n = true) :
    ReadsItem g [.word n] ⟨false, [n], .none⟩ := by
  have hunsafe : word? ["unsafe"] ⟨[.word n], []⟩ = some (false, ⟨[.word n], []⟩) :=
    word?_of_not (NamesType.not_startsWord (.inl hn) _ (by decide) _)
  have hpath := plainPath_word (w := []) hn (show startsWith "::" [] = false from rfl)
  have hequals : startsWith "=" [] = false := rfl
  simp [ReadsItem, attributeItem, hunsafe, hpath, hequals]

/-- An attribute that sets a word to a literal. -/
theorem readsItem_literal {n : String} (hn : isIdentifier n = true) {t : Token}
    (ht : startsLiteral [.leaf t] = true) (hsign : startsWith "-" [.leaf t] = false) :
    ReadsItem g [.word n, .mark '=' false, .leaf t] ⟨false, [n], literalValue [.leaf t]⟩ := by
  have hunsafe : word? ["unsafe"] ⟨[.word n, .mark '=' false, .leaf t], []⟩ =
      some (false, ⟨[.word n, .mark '=' false, .leaf t], []⟩) :=
    word?_of_not (NamesType.not_startsWord (.inl hn) _ (by decide) _)
  have hpath := plainPath_word (w := []) hn
    (show startsWith "::" [.mark '=' false, .leaf t] = false from rfl)
  have hequals : startsWith "=" [.mark '=' false, .leaf t] = true := rfl
  have hmark : mark "=" ⟨[.mark '=' false, .leaf t], [.word n]⟩ =
      some ((), ⟨[.leaf t], [.mark '=' false, .word n]⟩) := mark_singleton '=' false
  have hliteral (v : List Tree) : literal ⟨[.leaf t], v⟩ = some ((), ⟨[], .leaf t :: v⟩) := by
    simp [literal, ht, hsign]
  have hbehind (v : List Tree) : behind? literal ⟨[.leaf t], v⟩ = some (some [], ⟨[.leaf t], v⟩) := by
    simp [behind?, hliteral]
  simp [ReadsItem, attributeItem, hunsafe, hpath, hequals, hmark, attributeValue, hbehind, hliteral]

end Attributes

/-! ### Lists -/

/-- Entries with a comma behind each of them. -/
def commaed (trees : α → List Tree) (as : List α) : List Tree :=
  as.flatMap fun a => trees a ++ [.mark ',' false]

/-- The rule reads the trees of an entry in front of a comma, and gives the entry. -/
def ReadsEntry (r : Rule α) (trees : α → List Tree) (a : α) : Prop :=
  ∀ ts w, r ⟨trees a ++ .mark ',' false :: ts, w⟩ =
    some (a, ⟨.mark ',' false :: ts, (trees a).reverse ++ w⟩)

/-- The rule refuses the trees of an entry. -/
def RefusesEntry (r : Rule α) (trees : α → List Tree) (a : α) : Prop :=
  ∀ ts w, r ⟨trees a ++ ts, w⟩ = none

section Lists

variable {r : Rule α} {trees : α → List Tree} {as : List α} {w : List Tree}

theorem commaed_cons (a : α) (as : List α) :
    commaed trees (a :: as) = trees a ++ .mark ',' false :: commaed trees as := by
  simp [commaed]

theorem length_le_length_commaed : as.length ≤ (commaed trees as).length := by
  induction as with
  | nil => exact Nat.zero_le _
  | cons a as ih =>
    rw [commaed_cons, List.length_append, List.length_cons, List.length_cons]
    omega

theorem isEmpty_append_mark (us ts : List Tree) (c : Char) :
    (us ++ .mark c false :: ts).isEmpty = false := by
  cases us <;> rfl

theorem listUpTo_commaed (hread : ∀ a ∈ as, ReadsEntry r trees a) {n : Nat} (hn : as.length < n) :
    listUpTo "," List.isEmpty r n ⟨commaed trees as, w⟩ =
      some (as, ⟨[], (commaed trees as).reverse ++ w⟩) := by
  induction as generalizing n w with
  | nil =>
    obtain ⟨n, rfl⟩ := Nat.exists_eq_add_of_lt hn
    simp [listUpTo, commaed]
  | cons a as ih =>
    cases n with
    | zero => exact absurd hn (Nat.not_lt_zero _)
    | succ n =>
      have hrest (v : List Tree) := ih (w := v) (fun b hb => hread b (List.mem_cons_of_mem _ hb))
        (Nat.lt_of_succ_lt_succ hn)
      have hcomma (v : List Tree) : mark? "," ⟨.mark ',' false :: commaed trees as, v⟩ =
          some (true, ⟨commaed trees as, .mark ',' false :: v⟩) := rfl
      simp [listUpTo, commaed_cons, isEmpty_append_mark, hread a List.mem_cons_self _ _, hcomma,
        hrest]

theorem listUpTo_refuses (hread : ∀ a ∈ as, ReadsEntry r trees a ∨ RefusesEntry r trees a)
    (hrefuses : ∃ a ∈ as, RefusesEntry r trees a) (n : Nat) :
    listUpTo "," List.isEmpty r n ⟨commaed trees as, w⟩ = none := by
  induction as generalizing n w with
  | nil => simp at hrefuses
  | cons a as ih =>
    cases n with
    | zero => rfl
    | succ n =>
      rcases hread a List.mem_cons_self with ha | ha
      · have hcomma (v : List Tree) : mark? "," ⟨.mark ',' false :: commaed trees as, v⟩ =
            some (true, ⟨commaed trees as, .mark ',' false :: v⟩) := rfl
        by_cases hrest : ∃ b ∈ as, RefusesEntry r trees b
        · have hothers := fun b hb => hread b (List.mem_cons_of_mem _ hb)
          have hnone (v : List Tree) := ih (w := v) hothers hrest n
          simp [listUpTo, commaed_cons, isEmpty_append_mark, ha _ _, hcomma, hnone]
        · obtain ⟨b, hb, hrefusesb⟩ := hrefuses
          rcases List.mem_cons.1 hb with rfl | hb
          · have := (ha [] []).symm.trans (hrefusesb _ _)
            cases this
          · exact absurd ⟨b, hb, hrefusesb⟩ hrest
      · simp [listUpTo, commaed_cons, isEmpty_append_mark, ha _ _]

theorem commas_commaed (hread : ∀ a ∈ as, ReadsEntry r trees a) :
    commas r ⟨commaed trees as, w⟩ = some (as, ⟨[], (commaed trees as).reverse ++ w⟩) := by
  rw [commas, list, bind_eq, rest_eq, Option.bind_some]
  exact listUpTo_commaed hread (Nat.lt_succ_of_le length_le_length_commaed)

/-- A single entry, with no comma behind it. -/
theorem commas_one {a : α} {t : Tree} {ts v : List Tree} (h : r ⟨t :: ts, w⟩ = some (a, ⟨[], v⟩)) :
    commas r ⟨t :: ts, w⟩ = some ([a], ⟨[], v⟩) := by
  have hcomma : mark? "," ⟨[], v⟩ = some (false, ⟨[], v⟩) := rfl
  simp [commas, list, listUpTo, h, hcomma]

theorem commas_refuses (hread : ∀ a ∈ as, ReadsEntry r trees a ∨ RefusesEntry r trees a)
    (hrefuses : ∃ a ∈ as, RefusesEntry r trees a) :
    commas r ⟨commaed trees as, w⟩ = none := by
  rw [commas, list, bind_eq, rest_eq, Option.bind_some]
  exact listUpTo_refuses hread hrefuses _

end Lists

/-! ### Structs -/

section Structs

variable {g : Grammar} {ts w : List Tree}

/-- The rule for the type of a field gives `type` for its trees, in front of a comma. -/
def ReadsType (g : Grammar) (type : WrittenType) : Prop :=
  ∀ joined rest w, writtenType g ⟨type.trees ++ .mark ',' joined :: rest, w⟩ =
    some (type, ⟨.mark ',' joined :: rest, type.trees.reverse ++ w⟩)

theorem readsType_name (hg : ReadsNames g) {n : String} (hn : NamesType n) :
    ReadsType g ⟨[.word n], some ⟨n, none⟩⟩ := by
  intro joined rest w
  have htype := hg (w := []) hn ⟨',', joined, rest, rfl, .inl rfl⟩
  simp [writtenType, htype, nameForm]

theorem readsType_applied {k : Nat} {n : String} (hn : isIdentifier n = true)
    {arguments : List String} (hnames : ∀ a ∈ arguments, NamesType a) (joined : Bool) :
    ReadsType (Grammar.levels (k + 2))
      ⟨applied n arguments joined, some ⟨n, some (arguments.map fun a => .type [.word a])⟩⟩ := by
  intro joined' rest w
  have htype := type_applied (w := []) (readsNames_levels k) hn hnames joined
    ⟨',', joined', rest, rfl, .inl rfl⟩
  have hlevel : (Grammar.levels (k + 2)).type true
      ⟨applied n arguments joined ++ .mark ',' joined' :: rest, []⟩ = _ := htype
  simp [writtenType, hlevel]

/-- The trees of a field with its attributes and its name, without the comma behind it. -/
def fieldTrees (f : StructField) : List Tree :=
  f.attributes.flatMap Attribute.trees ++ .word f.name :: .mark ':' false :: f.type.trees

/-- Attributes as they are read in front of something. -/
def ReadsAttributes (g : Grammar) (attributes : List Attribute) : Prop :=
  ∀ {ts w : List Tree}, startsWith "#" ts = false →
    Rule.attributes g ⟨attributes.flatMap Attribute.trees ++ ts, w⟩ =
      some (attributes, ⟨ts, (attributes.flatMap Attribute.trees).reverse ++ w⟩)

/-- What may be the name of a field; a name may be left open. -/
def NamesField (n : String) : Prop := isIdentifier n = true ∨ n = "_"

/-- No visibility is in front of any other word. -/
theorem visibility?_of_not (h : startsWord ["pub"] ts = false) :
    visibility? ⟨ts, w⟩ = some (false, ⟨ts, w⟩) := by
  simp [visibility?, word?_of_not (s := ⟨ts, w⟩) h]

theorem mark_colon : mark ":" ⟨.mark ':' false :: ts, w⟩ = some ((), ⟨ts, .mark ':' false :: w⟩) :=
  mark_singleton ':' false

/-- What a field is made of is read as it is written; this says nothing of its name. -/
structure ReadsParts (g : Grammar) (f : StructField) : Prop where
  attributes : ReadsAttributes g f.attributes
  type : ReadsType g f.type
  /-- The type is not mistaken for a struct without a name. -/
  named : ∀ rest, startsNameless (f.type.trees ++ .mark ',' false :: rest) = false

/-- A field in front of a comma is read as it is written. -/
theorem readsEntry_namedField {f : StructField} (h : ReadsParts g f) (hname : NamesField f.name) :
    ReadsEntry (namedField g) fieldTrees f := by
  intro ts w
  obtain ⟨hattributes, htype, hplain⟩ := h
  obtain ⟨attributes, name, type⟩ := f
  dsimp only at hattributes htype hplain hname
  have hsplit : fieldTrees ⟨attributes, name, type⟩ ++ .mark ',' false :: ts =
      attributes.flatMap Attribute.trees
        ++ .word name :: .mark ':' false :: (type.trees ++ .mark ',' false :: ts) := by
    simp [fieldTrees]
  have hbehind := htype false ts
  have hnameless := hplain ts
  rw [hsplit]
  generalize type.trees ++ .mark ',' false :: ts = behind at hbehind hnameless ⊢
  have hend : startsWith "#" (.word name :: .mark ':' false :: behind) = false := rfl
  have hfront := hattributes (w := w) hend
  have hpub : startsWord ["pub"] (.word name :: .mark ':' false :: behind) = false := by
    rw [Bool.eq_false_iff]
    intro h
    obtain rfl : name = "pub" := by simpa [Tree.startsWord] using h
    revert hname
    simp [NamesField, isIdentifier, keywords]
  by_cases hopen : name = "_"
  · subst hopen
    have hsees : startsWord ["_"] (.word "_" :: .mark ':' false :: behind) = true := rfl
    simp [namedField, hfront, visibility?_of_not hpub, hsees, mark_colon, hnameless, hbehind,
      fieldTrees]
  · have hidentifier := hname.resolve_right hopen
    have hsees : startsWord ["_"] (.word name :: .mark ':' false :: behind) = false := by
      simp [Tree.startsWord, hopen]
    simp [namedField, hfront, visibility?_of_not hpub, hsees, identifier_word hidentifier,
      mark_colon, hbehind, fieldTrees]

/-- A field with a keyword for its name is not read. -/
theorem refusesEntry_namedField {f : StructField} (hattributes : ReadsAttributes g f.attributes)
    (hname : ¬ NamesField f.name) : RefusesEntry (namedField g) fieldTrees f := by
  intro ts w
  obtain ⟨attributes, name, type⟩ := f
  dsimp only at hattributes hname
  rw [NamesField, not_or] at hname
  have hsplit : fieldTrees ⟨attributes, name, type⟩ ++ ts =
      attributes.flatMap Attribute.trees ++ .word name :: .mark ':' false :: (type.trees ++ ts) := by
    simp [fieldTrees]
  rw [hsplit]
  generalize type.trees ++ ts = behind
  have hend : startsWith "#" (.word name :: .mark ':' false :: behind) = false := rfl
  have hfront := hattributes (w := w) hend
  by_cases hpub : name = "pub"
  · -- the name counts as the visibility, and there is none
    subst hpub
    have hvisible (v : List Tree) : visibility? ⟨.word "pub" :: .mark ':' false :: behind, v⟩ =
        some (true, ⟨.mark ':' false :: behind, .word "pub" :: v⟩) := rfl
    have hsees : startsWord ["_"] (.mark ':' false :: behind) = false := rfl
    have hidentifier (v : List Tree) : identifier ⟨.mark ':' false :: behind, v⟩ = none :=
      identifier_of_not rfl
    simp [namedField, hfront, hvisible, hsees, hidentifier]
  · have hword : startsWord ["pub"] (.word name :: .mark ':' false :: behind) = false := by
      simp [Tree.startsWord, hpub]
    have hsees : startsWord ["_"] (.word name :: .mark ':' false :: behind) = false := by
      simp [Tree.startsWord, hname.2]
    have hidentifier (v : List Tree) :
        identifier ⟨.word name :: .mark ':' false :: behind, v⟩ = none :=
      identifier_of_not (Bool.eq_false_iff.2 hname.1)
    simp [namedField, hfront, visibility?_of_not hword, hsees, hidentifier]

theorem structBody_brace (content w : List Tree) :
    structBody g ⟨[.group .brace content], w⟩ =
      (namedFields g ⟨[.group .brace content], w⟩).map fun p => ((false, .named p.1), p.2) := by
  have hconditions : conditions? g ⟨[.group .brace content], w⟩ =
      some (false, ⟨[.group .brace content], w⟩) := rfl
  have hround : startsGroup .round [.group .brace content] = false := rfl
  have hbrace : startsGroup .brace [.group .brace content] = true := rfl
  simp only [structBody, bind_eq, hconditions, Option.bind_some, rest_eq, hround, hbrace,
    Bool.and_false, Bool.false_eq_true, if_false, if_true, pure_eq]
  cases namedFields g ⟨[.group .brace content], w⟩ <;> rfl

/-- A public struct comes down to its name and its fields. -/
theorem struct_brace (attributes : List Attribute) (name : String) (content w : List Tree) :
    struct g attributes ⟨[.word "pub", .word "struct", .word name, .group .brace content], w⟩ =
      if isIdentifier name = true then
        (namedFields g ⟨[.group .brace content],
            .word name :: .word "struct" :: .word "pub" :: w⟩).map
          fun p => (⟨attributes, [.word "pub"], name, false, .named p.1⟩, p.2)
      else none := by
  have hpub : visibility? ⟨[.word "pub", .word "struct", .word name, .group .brace content], []⟩ =
      some (true, ⟨[.word "struct", .word name, .group .brace content], [.word "pub"]⟩) := rfl
  have hstruct (v : List Tree) :
      word ["struct"] ⟨[.word "struct", .word name, .group .brace content], v⟩ =
      some ((), ⟨[.word name, .group .brace content], .word "struct" :: v⟩) := rfl
  split
  · rename_i hname
    have hparameters (v : List Tree) : parameters? g ⟨[.group .brace content], v⟩ =
        some (0, ⟨[.group .brace content], v⟩) := rfl
    simp only [struct, bind_eq, apart_eq, hpub, hstruct, identifier_word hname, hparameters,
      structBody_brace, Option.map_some, Option.bind_some, write_eq, List.reverse_singleton,
      List.singleton_append]
    cases namedFields g
      ⟨[.group .brace content], .word name :: .word "struct" :: .word "pub" :: w⟩ <;> rfl
  · rename_i hname
    have hidentifier (v : List Tree) : identifier ⟨[.word name, .group .brace content], v⟩ = none :=
      identifier_of_not (Bool.eq_false_iff.2 hname)
    simp [struct, hpub, hstruct, hidentifier]

/-- A public struct with named fields. -/
def structTrees (name : String) (fields : List StructField) : List Tree :=
  [.word "pub", .word "struct", .word name, .group .brace (commaed fieldTrees fields)]

variable {name : String} {fields : List StructField} {attributes : List Attribute}

theorem struct_eq (hfields : ∀ f ∈ fields, ReadsParts g f) (hname : isIdentifier name = true)
    (hnames : ∀ f ∈ fields, NamesField f.name) :
    struct g attributes ⟨structTrees name fields, w⟩ =
      some (⟨attributes, [.word "pub"], name, false, .named fields⟩,
        ⟨[], (structTrees name fields).reverse ++ w⟩) := by
  have hbody := commas_commaed (w := []) fun f hf =>
    readsEntry_namedField (hfields f hf) (hnames f hf)
  rw [List.append_nil] at hbody
  have hread (v : List Tree) : namedFields g ⟨[.group .brace (commaed fieldTrees fields)], v⟩ =
      some (fields, ⟨[], .group .brace (commaed fieldTrees fields) :: v⟩) := within_group hbody
  rw [structTrees, struct_brace, if_pos hname, hread]
  rfl

/-- A struct is refused for a keyword in the place of a name. -/
theorem struct_refuses (hfields : ∀ f ∈ fields, ReadsParts g f)
    (hnames : ¬ (isIdentifier name = true ∧ ∀ f ∈ fields, NamesField f.name)) :
    struct g attributes ⟨structTrees name fields, w⟩ = none := by
  rw [structTrees, struct_brace]
  split
  · rename_i hname
    have hkeyword : ∃ f ∈ fields, ¬ NamesField f.name := by
      simpa [hname, Classical.not_forall] using hnames
    obtain ⟨f, hf, hnot⟩ := hkeyword
    have hread : ∀ f ∈ fields, ReadsEntry (namedField g) fieldTrees f ∨
        RefusesEntry (namedField g) fieldTrees f := by
      intro f hf
      by_cases hn : NamesField f.name
      · exact .inl (readsEntry_namedField (hfields f hf) hn)
      · exact .inr (refusesEntry_namedField (hfields f hf).attributes hn)
    have hbody := commas_refuses (w := []) hread
      ⟨f, hf, refusesEntry_namedField (hfields f hf).attributes hnot⟩
    simp [namedFields, within, hbody]
  · rfl

end Structs

end VersionedRecords.Source.Rule
