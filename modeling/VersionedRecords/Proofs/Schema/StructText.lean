import VersionedRecords.Proofs.Source.Lexing
import VersionedRecords.Schema.Source
import VersionedRecords.Source.Parse

/-!
The text of a generated struct, and the trees that are read from it.

A generated text is made of lines, so it is cut into tokens line by line; what the tokens of a line
are does not depend on the lines around it.
-/

namespace VersionedRecords

open Source Source.Token
open Schema (Identifier isWordChar)

/-- A name that may stand in source text. -/
def IsName (name : String) : Prop := Schema.isIdentifier name.toList = true

instance : DecidablePred IsName := fun name =>
  inferInstanceAs (Decidable (Schema.isIdentifier name.toList = true))

/-- A type as it comes out of a schema: as many names as the kind takes. -/
def ResolvedType.Named : ResolvedType → Prop
  | identity name => IsName name
  | value shape arguments => arguments.length = shape.arity ∧ ∀ a ∈ arguments, IsName a

/-! ### Trees -/

/-- The trees of a type as it is written: a name, or a marker with names in angle brackets. -/
def ResolvedType.trees : ResolvedType → List Tree
  | identity name => [.word name]
  | value shape arguments =>
    .word shape.marker :: .mark '<' false
      :: (arguments.map Tree.word).intersperse (.mark ',' false) ++ [.mark '>' true]

namespace ResolvedField

/-- The attribute in front of a key. -/
def attributeTrees (f : ResolvedField) : List Tree :=
  if f.role = .key then [.mark '#' false, .group .square [.word "key"]] else []

/-- The trees of a field of a struct. -/
def trees (f : ResolvedField) : List Tree :=
  f.attributeTrees ++ .word f.name :: .mark ':' false :: f.type.trees ++ [.mark ',' false]

end ResolvedField

namespace Schema

/-- The attribute that a line of documentation stands for. -/
def docTrees (comment : String) : List Tree :=
  [.mark '#' false, .group .square [.word "doc", .mark '=' false, .leaf (.ofText comment)]]

/-- The documentation of a record, without the marks of the comments. -/
def modelDocs (m : ModelDeclaration) (fields : List ResolvedField) : List String :=
  [" The `" ++ m.name ++ "` model.", "",
    " Schema fingerprint: `" ++ paddedHex (ResolvedField.fingerprint fields) ++ "`."]

/-- The trees of a generated struct. -/
def structTrees (m : ModelDeclaration) (fields : List ResolvedField) : List Tree :=
  (modelDocs m fields).flatMap docTrees
    ++ [.word "pub", .word "struct", .word m.name,
      .group .brace (fields.flatMap ResolvedField.trees)]

end Schema

/-! ### Lines -/

namespace Source

theorem Tree.allTokens_append (a b : List Tree) :
    Tree.allTokens (a ++ b) = Tree.allTokens a ++ Tree.allTokens b := by
  induction a with
  | nil => rfl
  | cons t a ih => rw [List.cons_append, allTokens, allTokens, ih, List.append_assoc]

theorem Tree.allTokens_flatMap {α : Type} (f : α → List Tree) (as : List α) :
    Tree.allTokens (as.flatMap f) = as.flatMap fun a => Tree.allTokens (f a) := by
  induction as with
  | nil => rfl
  | cons a as ih => rw [List.flatMap_cons, List.flatMap_cons, allTokens_append, ih]

/-- Some lines give some tokens, whatever follows them. -/
def LinesGive (lines : List String) (ts : List Token) : Prop :=
  ∀ rest us, Lexes rest us → Lexes ((Schema.ofLines lines).toList ++ rest) (ts ++ us)

theorem toList_ofLines (lines : List String) :
    (Schema.ofLines lines).toList = lines.flatMap fun l => l.toList ++ ['\n'] := by
  induction lines with
  | nil => rfl
  | cons l lines ih =>
    have hcons : Schema.ofLines (l :: lines) = l ++ "\n" ++ Schema.ofLines lines := by
      cases lines with
      | nil => simp [Schema.ofLines]
      | cons l' lines =>
        rw [Schema.ofLines, List.map_cons, List.map_cons, String.intercalate_cons_cons,
          String.append_empty]
        rfl
    rw [hcons, List.flatMap_cons, String.toList_append, String.toList_append, ih]
    rfl

namespace LinesGive

variable {lines lines' : List String} {ts ts' : List Token}

theorem nil : LinesGive [] [] := by
  intro rest us h
  exact h

theorem append (h : LinesGive lines ts) (h' : LinesGive lines' ts') :
    LinesGive (lines ++ lines') (ts ++ ts') := by
  intro rest us hrest
  have := h _ _ (h' rest us hrest)
  rwa [toList_ofLines, List.flatMap_append, List.append_assoc, List.append_assoc, ← toList_ofLines,
    ← toList_ofLines]

theorem flatMap {α : Type} {f : α → List String} {g : α → List Token} {as : List α}
    (h : ∀ a ∈ as, LinesGive (f a) (g a)) : LinesGive (as.flatMap f) (as.flatMap g) := by
  induction as with
  | nil => exact nil
  | cons a as ih =>
    exact (h a List.mem_cons_self).append (ih fun b hb => h b (List.mem_cons_of_mem _ hb))

/-- One line. -/
theorem line {l : String}
    (h : ∀ rest us, Lexes rest us → Lexes (l.toList ++ '\n' :: rest) (ts ++ us)) :
    LinesGive [l] ts := by
  intro rest us hrest
  have := h rest us hrest
  rwa [toList_ofLines, List.flatMap_singleton, List.append_assoc, List.singleton_append]

end LinesGive

end Source

/-! ### Fields -/

/-- Names with commas between them, up to a bracket. -/
theorem lexes_intercalate {arguments : List String} (hnames : ∀ a ∈ arguments, IsName a)
    {rest : List Char} {us : List Token} (h : Lexes ('>' :: rest) us) :
    Lexes ((", ".intercalate arguments).toList ++ '>' :: rest)
      (Tree.allTokens ((arguments.map Tree.word).intersperse (.mark ',' false)) ++ us) := by
  induction arguments with
  | nil => exact h
  | cons a arguments ih =>
    have ha := hnames a List.mem_cons_self
    have hrest := ih fun b hb => hnames b (List.mem_cons_of_mem _ hb)
    cases arguments with
    | nil =>
      rw [String.intercalate_singleton]
      exact h.name ha (.of_char (by decide) (by decide))
    | cons b arguments =>
      rw [String.intercalate_cons_cons, String.toList_append, String.toList_append, List.append_assoc,
        List.append_assoc]
      have hcomma := (hrest.space (c := ' ') (by decide)).mark (c := ',') (by decide) rfl
      exact hcomma.name ha (.of_char (by decide) (by decide))

namespace ResolvedType

variable {t : ResolvedType} {rest : List Char} {us : List Token}

theorem isName_marker (shape : FieldShape) : IsName shape.marker := by
  cases shape <;> decide

/-- The text of a type gives its trees, in front of a comma. -/
theorem lexes_written (ht : t.Named) (h : Lexes (',' :: rest) us) :
    Lexes (t.written.toList ++ ',' :: rest) (Tree.allTokens t.trees ++ us) := by
  cases t with
  | identity name => exact h.name ht (.of_char (by decide) (by decide))
  | value shape arguments =>
    obtain ⟨harity, hnames⟩ := ht
    have hfirst : startsMark ((", ".intercalate arguments).toList ++ '>' :: ',' :: rest) = false := by
      cases arguments with
      | nil => cases shape <;> cases harity
      | cons a arguments =>
        have ha := hnames a List.mem_cons_self
        cases arguments with
        | nil =>
          rw [String.intercalate_singleton]
          exact startsMark_name ha _
        | cons b arguments =>
          rw [String.intercalate_cons_cons, String.toList_append, String.toList_append,
            List.append_assoc, List.append_assoc]
          exact startsMark_name ha _
    have hclose := h.mark (c := '>') (by decide) rfl
    have hopen := (lexes_intercalate hnames hclose).mark (c := '<') (by decide) hfirst
    have hmarker := hopen.name (isName_marker shape) (.of_char (by decide) (by decide))
    have htokens : Tree.allTokens (ResolvedType.value shape arguments).trees ++ us =
        .word shape.marker :: .mark '<' false
          :: (Tree.allTokens ((arguments.map Tree.word).intersperse (.mark ',' false))
            ++ .mark '>' true :: us) := by
      rw [trees, Tree.allTokens_append, List.append_assoc]
      rfl
    have htext : (ResolvedType.value shape arguments).written.toList ++ ',' :: rest =
        shape.marker.toList ++ '<' :: ((", ".intercalate arguments).toList ++ '>' :: ',' :: rest) := by
      simp [written]
    rw [htext, htokens]
    exact hmarker

end ResolvedType

namespace ResolvedField

variable {f : ResolvedField}

theorem isSpace_of_mem_indent : ∀ c ∈ "    ".toList, isSpace c = true := by
  intro c hc
  rw [show "    ".toList = List.replicate 4 ' ' from rfl] at hc
  rw [List.eq_of_mem_replicate hc]
  decide

theorem linesGive_attribute (f : ResolvedField) :
    LinesGive (if f.role = .key then ["    #[key]"] else []) (Tree.allTokens f.attributeTrees) := by
  rw [attributeTrees]
  split
  · refine .line fun rest us h => ?_
    have hclose := (h.space (c := '\n') (by decide)).bracket (c := ']') (t := .leave .square)
      (by decide)
    have hkey : Lexes ("key".toList ++ ']' :: '\n' :: rest) _ :=
      hclose.name (by decide) (.of_char (by decide) (by decide))
    have hopen := hkey.bracket (c := '[') (t := .enter .square) (by decide)
    have hmark := hopen.mark (c := '#') (by decide) rfl
    have hline := hmark.spaces isSpace_of_mem_indent
    exact hline
  · exact .nil

theorem linesGive_declaration (hname : IsName f.name) (ht : f.type.Named) :
    LinesGive ["    " ++ f.name ++ ": " ++ f.type.written ++ ","]
      (Tree.allTokens (.word f.name :: .mark ':' false :: f.type.trees ++ [.mark ',' false])) := by
  refine .line fun rest us h => ?_
  have hcomma := (h.space (c := '\n') (by decide)).mark (c := ',') (by decide) rfl
  have htype := (ResolvedType.lexes_written ht hcomma).space (c := ' ') (by decide)
  have hcolon := htype.mark (c := ':') (by decide) rfl
  have hfield := hcolon.name hname (.of_char (by decide) (by decide))
  have htokens : Tree.allTokens (.word f.name :: .mark ':' false :: f.type.trees
      ++ [.mark ',' false]) ++ us =
      .word f.name :: .mark ':' false :: (Tree.allTokens f.type.trees ++ .mark ',' false :: us) := by
    rw [Tree.allTokens_append, List.append_assoc]
    rfl
  have htext : ("    " ++ f.name ++ ": " ++ f.type.written ++ ",").toList ++ '\n' :: rest =
      "    ".toList ++ (f.name.toList ++ ':' :: ' ' :: (f.type.written.toList
        ++ ',' :: '\n' :: rest)) := by
    simp
  rw [htokens, htext]
  exact hfield.spaces isSpace_of_mem_indent

/-- The lines of a field give its trees. -/
theorem linesGive (hname : IsName f.name) (ht : f.type.Named) :
    LinesGive (Schema.fieldLines f) (Tree.allTokens f.trees) := by
  have := (linesGive_attribute f).append (linesGive_declaration hname ht)
  rwa [← Tree.allTokens_append, ← List.append_assoc] at this

end ResolvedField

/-! ### Structs -/

namespace Schema

/-- There is no break in a number that is written out. -/
theorem ne_break_of_mem_toDigits {n : Nat} {c : Char} (hc : c ∈ Nat.toDigits 16 n) :
    c ≠ '\n' ∧ c ≠ '\r' := by
  have hdigit : ∀ d < 16, d.digitChar ≠ '\n' ∧ d.digitChar ≠ '\r' := by decide
  induction n using Nat.strongRecOn with
  | ind n ih =>
    rw [Nat.toDigits_eq_if (by decide)] at hc
    split at hc
    · rename_i hlt
      obtain rfl := List.mem_singleton.1 hc
      exact hdigit n hlt
    · rename_i hlt
      rcases List.mem_append.1 hc with h | h
      · exact ih _ (Nat.div_lt_self (by omega) (by decide)) h
      · obtain rfl := List.mem_singleton.1 h
        exact hdigit _ (Nat.mod_lt _ (by decide))

theorem ne_break_of_mem_paddedHex {n : Nat} {c : Char} (hc : c ∈ (paddedHex n).toList) :
    c ≠ '\n' ∧ c ≠ '\r' := by
  simp only [paddedHex, String.toList_append, String.toList_ofList, List.mem_append] at hc
  rcases hc with h | h | h
  · have hall : "0x".toList.all (fun c => c != '\n' && c != '\r') = true := by decide
    simpa using List.all_eq_true.1 hall c h
  · obtain rfl := List.eq_of_mem_replicate h
    decide
  · exact ne_break_of_mem_toDigits h

theorem ne_break_of_mem_name {name : String} (hname : IsName name) {c : Char}
    (hc : c ∈ name.toList) : c ≠ '\n' ∧ c ≠ '\r' := by
  have hword := Identifier.isWordChar_of_mem ⟨name.toList, hname⟩ hc
  refine ⟨?_, ?_⟩ <;> rintro rfl <;> exact absurd hword (by decide)

/-- A line of documentation gives the attribute that it stands for. -/
theorem linesGive_doc {comment : String} (hline : ∀ c ∈ comment.toList, c ≠ '\n' ∧ c ≠ '\r')
    (hslash : comment.toList.head? ≠ some '/') :
    LinesGive ["///" ++ comment] (Tree.allTokens (docTrees comment)) := by
  refine .line fun rest us h => ?_
  have hdoc := (h.space (c := '\n') (by decide)).doc hline hslash
  have htokens : docTokens false comment.toList = Tree.allTokens (docTrees comment) := by
    simp only [docTokens, docTrees, String.ofList_toList]
    rfl
  have htext : ("///" ++ comment).toList ++ '\n' :: rest =
      '/' :: '/' :: '/' :: (comment.toList ++ '\n' :: rest) := by
    simp
  rw [htext, ← htokens]
  exact hdoc

variable {m : ModelDeclaration} {fields : List ResolvedField}

theorem modelDocLines_eq : modelDocLines m fields = (modelDocs m fields).map ("///" ++ ·) := by
  have hname : "/// The `" = "///" ++ " The `" := by decide
  have hfingerprint : "/// Schema fingerprint: `" = "///" ++ " Schema fingerprint: `" := by decide
  simp only [modelDocLines, modelDocs, List.map_cons, List.map_nil, hname, hfingerprint,
    String.append_assoc, String.append_empty]

theorem ne_break_of_mem_modelDocs (hm : IsName m.name) {d : String} (hd : d ∈ modelDocs m fields)
    {c : Char} (hc : c ∈ d.toList) : c ≠ '\n' ∧ c ≠ '\r' := by
  have hfixed {s : String} (hs : s.toList.all (fun c => c != '\n' && c != '\r') = true)
      (h : c ∈ s.toList) : c ≠ '\n' ∧ c ≠ '\r' := by
    simpa using List.all_eq_true.1 hs c h
  simp only [modelDocs, List.mem_cons, List.not_mem_nil, or_false] at hd
  rcases hd with rfl | rfl | rfl
  · rw [String.toList_append, String.toList_append, List.mem_append, List.mem_append] at hc
    rcases hc with (h | h) | h
    · exact hfixed (by decide) h
    · exact ne_break_of_mem_name hm h
    · exact hfixed (by decide) h
  · simp at hc
  · rw [String.toList_append, String.toList_append, List.mem_append, List.mem_append] at hc
    rcases hc with (h | h) | h
    · exact hfixed (by decide) h
    · exact ne_break_of_mem_paddedHex h
    · exact hfixed (by decide) h

theorem head?_modelDocs {d : String} (hd : d ∈ modelDocs m fields) :
    d.toList.head? ≠ some '/' := by
  simp only [modelDocs, List.mem_cons, List.not_mem_nil, or_false] at hd
  rcases hd with rfl | rfl | rfl <;> simp

theorem linesGive_modelDocLines (hm : IsName m.name) :
    LinesGive (modelDocLines m fields)
      (Tree.allTokens ((modelDocs m fields).flatMap docTrees)) := by
  rw [modelDocLines_eq, List.map_eq_flatMap, Tree.allTokens_flatMap]
  exact .flatMap fun d hd =>
    linesGive_doc (fun c hc => ne_break_of_mem_modelDocs hm hd hc) (head?_modelDocs hd)

theorem linesGive_structLines (hm : IsName m.name)
    (hfields : ∀ f ∈ fields, IsName f.name ∧ f.type.Named) :
    LinesGive (structLines m fields)
      (Tree.allTokens [.word "pub", .word "struct", .word m.name,
        .group .brace (fields.flatMap ResolvedField.trees)]) := by
  have hopen : LinesGive ["pub struct " ++ m.name ++ " \x7b"]
      [.word "pub", .word "struct", .word m.name, .enter .brace] := by
    refine .line fun rest us h => ?_
    have hbrace := ((h.space (c := '\n') (by decide)).bracket (c := '\x7b') (t := .enter .brace)
      (by decide)).space (c := ' ') (by decide)
    have hname := (hbrace.name hm (.of_char (by decide) (by decide))).space (c := ' ') (by decide)
    have hstruct : Lexes ("struct".toList ++ _) _ :=
      hname.name (by decide) (.of_char (by decide) (by decide))
    have hpub : Lexes ("pub".toList ++ _) _ :=
      (hstruct.space (c := ' ') (by decide)).name (by decide) (.of_char (by decide) (by decide))
    simpa using hpub
  have hbody : LinesGive (fields.flatMap fieldLines)
      (Tree.allTokens (fields.flatMap ResolvedField.trees)) := by
    rw [Tree.allTokens_flatMap]
    exact .flatMap fun f hf => ResolvedField.linesGive (hfields f hf).1 (hfields f hf).2
  have hclose : LinesGive ["\x7d"] [.leave .brace] := by
    refine .line fun rest us h => ?_
    exact (h.space (c := '\n') (by decide)).bracket (c := '\x7d') (t := .leave .brace) (by decide)
  have := (hopen.append hbody).append hclose
  have htokens : Tree.allTokens [.word "pub", .word "struct", .word m.name,
      .group .brace (fields.flatMap ResolvedField.trees)] =
      [.word "pub", .word "struct", .word m.name, .enter .brace]
        ++ Tree.allTokens (fields.flatMap ResolvedField.trees) ++ [.leave .brace] := by
    simp [Tree.allTokens, Tree.tokens]
  rwa [htokens]

theorem paired_intersperse {sep : Tree} (hsep : sep.Paired) {ts : List Tree}
    (h : ∀ t ∈ ts, t.Paired) : ∀ t ∈ ts.intersperse sep, t.Paired := by
  induction ts with
  | nil => simp
  | cons t ts ih =>
    have hrest := ih fun u hu => h u (List.mem_cons_of_mem _ hu)
    cases ts with
    | nil => simpa using h
    | cons u ts =>
      rw [List.intersperse_cons_cons, List.forall_mem_cons, List.forall_mem_cons]
      exact ⟨h t List.mem_cons_self, hsep, hrest⟩

theorem paired_type (t : ResolvedType) : ∀ u ∈ t.trees, u.Paired := by
  cases t with
  | identity name => simp [ResolvedType.trees, Tree.Paired]
  | value shape arguments =>
    have harguments : ∀ u ∈ (arguments.map Tree.word).intersperse (.mark ',' false), u.Paired :=
      paired_intersperse (by simp [Tree.Paired]) (by simp [Tree.Paired])
    intro u hu
    simp only [ResolvedType.trees, List.cons_append, List.mem_cons, List.mem_append,
      List.not_mem_nil, or_false] at hu
    rcases hu with rfl | rfl | hu | rfl
    · simp [Tree.Paired]
    · simp [Tree.Paired]
    · exact harguments u hu
    · simp [Tree.Paired]

theorem paired_field (f : ResolvedField) : ∀ u ∈ f.trees, u.Paired := by
  have hattribute : ∀ u ∈ f.attributeTrees, u.Paired := by
    rw [ResolvedField.attributeTrees]
    split <;> simp [Tree.Paired]
  intro u hu
  simp only [ResolvedField.trees, List.append_assoc, List.cons_append, List.mem_append,
    List.mem_cons, List.not_mem_nil, or_false] at hu
  rcases hu with hu | rfl | rfl | hu | rfl
  · exact hattribute u hu
  · simp [Tree.Paired]
  · simp [Tree.Paired]
  · exact paired_type f.type u hu
  · simp [Tree.Paired]

theorem paired_structTrees : ∀ t ∈ structTrees m fields, t.Paired := by
  intro t ht
  rw [structTrees, List.mem_append, List.mem_flatMap] at ht
  rcases ht with ⟨d, -, hd⟩ | ht
  · simp only [docTrees, List.mem_cons, List.not_mem_nil, or_false] at hd
    rcases hd with rfl | rfl <;> simp [Tree.Paired, ofText]
  · simp only [List.mem_cons, List.not_mem_nil, or_false] at ht
    rcases ht with rfl | rfl | rfl | rfl
    · simp [Tree.Paired]
    · simp [Tree.Paired]
    · simp [Tree.Paired]
    · rw [Tree.Paired]
      intro u hu
      obtain ⟨f, -, hf⟩ := List.mem_flatMap.1 hu
      exact paired_field f u hf

/-- The trees of a generated struct are those of its parts. -/
theorem parse?_structText (hm : IsName m.name)
    (hfields : ∀ f ∈ fields, IsName f.name ∧ f.type.Named) :
    Tree.parse? (structText m fields) = some (structTrees m fields) := by
  have hdocs : LinesGive (modelDocLines m fields)
      (Tree.allTokens ((modelDocs m fields).flatMap docTrees)) := linesGive_modelDocLines hm
  have hlines := hdocs.append (linesGive_structLines hm hfields)
  have hlexes := hlines [] [] .nil
  rw [List.append_nil, List.append_nil, ← Tree.allTokens_append] at hlexes
  have hmark : (structText m fields).toList.head? ≠ some '\uFEFF' := by
    simp [structText, toList_ofLines, modelDocLines]
  have hsource := ofSource?_of_lexes hlexes hmark
  rw [Tree.parse?, structText, hsource]
  exact Tree.ofTokens?_allTokens paired_structTrees

/-! ### The attribute -/

/-- The trees of the attribute's arguments. -/
def fingerprintTrees (n : Nat) : List Tree :=
  [.word "fingerprint", .mark '=' false, .leaf (.literal (toString n))]

/-- The trees of the attribute in front of a struct are those of its argument. -/
theorem parse?_attributeText (fields : List ResolvedField) :
    Tree.parse? (attributeText fields) =
      some (fingerprintTrees (ResolvedField.fingerprint fields)) := by
  have hnumber := (Lexes.number (ResolvedField.fingerprint fields)).space (c := ' ') (by decide)
  have hequals := (hnumber.mark (c := '=') (by decide) rfl).space (c := ' ') (by decide)
  have hlexes : Lexes ("fingerprint".toList ++ _) _ :=
    hequals.name (by decide) (.of_char (by decide) (by decide))
  have htext : (attributeText fields).toList = "fingerprint".toList
      ++ ' ' :: '=' :: ' ' :: (toString (ResolvedField.fingerprint fields)).toList := by
    simp [attributeText]
  rw [← htext] at hlexes
  have hmark : (attributeText fields).toList.head? ≠ some '\uFEFF' := by
    simp [htext]
  rw [Tree.parse?, ofSource?_of_lexes hlexes hmark]
  have hpaired : ∀ t ∈ fingerprintTrees (ResolvedField.fingerprint fields), t.Paired := by
    simp [fingerprintTrees, Tree.Paired]
  exact Tree.ofTokens?_allTokens hpaired

end Schema

end VersionedRecords
