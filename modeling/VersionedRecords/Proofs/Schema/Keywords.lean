import VersionedRecords.Proofs.Schema.ReadingBack

/-!
Keywords in generated code.

The rules for the names in a schema say how names are spelled, and leave out which words are taken
already.  So a schema without faults may give a keyword to a module, a type, a variant or a field,
and the type of a key may have the name of a kind of field.  Nothing else can go wrong: every other
identifier that the generated files declare is one, and every other struct can be expanded.
-/

namespace VersionedRecords

open Source

namespace Schema

/-- The identifiers that the generated files declare, each between the texts next to it. -/
inductive Declares (s : Schema) : String → String → String → Prop
  | module {name : String}
    (h : name ∈ moduleNames (!s.enums.isEmpty) (!s.keys.isEmpty) s.models) :
    Declares s "mod " name ";"
  | imported {i : ImportDeclaration} (hi : i ∈ s.imports) : Declares s "" i.name ";"
  | enumeration {e : EnumDeclaration} (he : e ∈ s.enums) :
    Declares s "pub enum " e.name " \x7b"
  | variant {e : EnumDeclaration} {v : String} (he : e ∈ s.enums) (hv : v ∈ e.variants) :
    Declares s "    " v ","
  | key {k : KeyDeclaration} (hk : k ∈ s.keys) : Declares s "pub struct " k.name " \x7b"
  | part {k : KeyDeclaration} {f : FieldDeclaration} (hk : k ∈ s.keys) (hf : f ∈ k.fields) :
    Declares s "    pub " f.name ": "
  | model {m : ModelDeclaration} (hm : m ∈ s.models) : Declares s "pub struct " m.name " \x7b"
  | field {m : ModelDeclaration} {f : FieldDeclaration} (hm : m ∈ s.models) (hf : f ∈ m.fields) :
    Declares s "    " f.name ": "

/-- What is generated from a schema can be used: everything that it declares is an identifier, and
the struct of every record can be expanded. -/
structure Acceptable (s : Schema) : Prop where
  named : ∀ front name back, s.Declares front name back → Source.isIdentifier name = true
  expanded : ∀ m ∈ s.models, ∃ fields ts, s.resolveModel m = .ok fields ∧
    Blueprint.expand (attributeText fields) (structText m fields) = .ok ts

/-- A word with a capital in front. -/
def capitalized (word : String) : String :=
  match word.toList with
  | c :: rest => String.ofList (c.toUpper :: rest)
  | [] => ""

/-- The names in a schema keep clear of keywords, and the types of its keys of the kinds of
fields. -/
structure Clear (s : Schema) : Prop where
  types : "Self" ∉ s.declaredNames
  variants : ∀ e ∈ s.enums, "Self" ∉ e.variants
  parts : ∀ k ∈ s.keys, ∀ f ∈ k.fields, f.name ∉ keywords
  fields : ∀ m ∈ s.models, ∀ f ∈ m.fields, f.name ∉ keywords
  /-- The module of a record has its name in small letters. -/
  modules : ∀ m ∈ s.models, m.name ∉ keywords.map capitalized
  /-- The type of a key is not taken for a kind of field. -/
  keys : ∀ m ∈ s.models, ∀ k ∈ m.keyFields, ∀ name,
    TypeExpression.parse? k.type.toList = some (.name name) → FieldShape.ofMarker? name = none

/-! ### Names -/

section Names

variable {n : String}

theorem isIdentifier_iff : Source.isIdentifier n = true ↔ n ∉ keywords := by
  simp [Source.isIdentifier]

theorem mem_keywords_iff_of_pascalCase (h : PascalCase n) : n ∈ keywords ↔ n = "Self" := by
  have hkeywords : ∀ k ∈ keywords, isPascalCase k = true → k = "Self" := by decide
  constructor
  · exact fun hn => hkeywords n hn (isPascalCase_iff.2 h)
  · rintro rfl
    decide

theorem toLower_of_isUpper {c : Char} (h : c.isUpper = true) :
    c.toLower.isLower = true ∧ c.toLower.toUpper = c := by
  have hall : ∀ n < 91, 65 ≤ n → (Char.ofNat n).toLower.isLower = true ∧
      (Char.ofNat n).toLower.toUpper = Char.ofNat n := by
    decide
  have hrange : 'A'.val ≤ c.val ∧ c.val ≤ 'Z'.val := of_decide_eq_true h
  rw [UInt32.le_iff_toNat_le, UInt32.le_iff_toNat_le] at hrange
  rw [← Char.ofNat_toNat c]
  exact hall _ (Nat.lt_succ_of_le hrange.2) hrange.1

theorem toList_toSnakeCase {c : Char} {rest : List Char} (h : n.toList = c :: rest) :
    (toSnakeCase n).toList = c.toLower :: rest.flatMap setOff := by
  simp [toSnakeCase, h]

theorem isName_toSnakeCase (h : PascalCase n) : IsName (toSnakeCase n) := by
  obtain ⟨c, rest, hname, hc, hrest⟩ := h
  refine isName_of_cons (toList_toSnakeCase hname)
    (.inl (isAlpha_of_isLower (toLower_of_isUpper hc).1)) fun d hd => ?_
  obtain ⟨e, he, hd⟩ := List.mem_flatMap.1 hd
  rw [setOff] at hd
  split at hd
  · next hupper =>
    rcases List.mem_pair.1 hd with rfl | rfl
    · rfl
    · rw [isWordChar_iff]
      exact .inl (.inl (isAlpha_of_isLower (toLower_of_isUpper hupper).1))
  · rw [List.mem_singleton] at hd
    rw [hd, isWordChar, hrest e he, Bool.true_or]

/-- The module of a record is named by a keyword only if the record is named by the same word. -/
theorem toSnakeCase_mem_keywords_iff (h : PascalCase n) :
    toSnakeCase n ∈ keywords ↔ n ∈ keywords.map capitalized := by
  constructor
  · intro hn
    obtain ⟨c, rest, hname, hc, -⟩ := h
    have hsnake := toList_toSnakeCase hname
    -- no keyword has an underscore behind its first letter
    have hunderscore : ∀ k ∈ keywords, '_' ∉ k.toList.tail := by decide
    have hrest : rest.flatMap setOff = rest := by
      have hplain : ∀ d ∈ rest, setOff d = [d] := by
        intro d hd
        have hout := hunderscore _ hn
        rw [hsnake, List.tail_cons, List.mem_flatMap] at hout
        rw [setOff, if_neg]
        intro hupper
        exact hout ⟨d, hd, by simp [setOff, hupper]⟩
      rw [List.flatMap_congr hplain, List.flatMap_singleton']
    refine List.mem_map.2 ⟨_, hn, ?_⟩
    rw [capitalized, hsnake, hrest]
    simp only [(toLower_of_isUpper hc).2, ← hname, String.ofList_toList]
  · intro hn
    obtain ⟨k, hk, rfl⟩ := List.mem_map.1 hn
    have hback : ∀ k ∈ keywords, isPascalCase (capitalized k) = true →
        toSnakeCase (capitalized k) ∈ keywords := by
      decide
    exact hback k hk (isPascalCase_iff.2 h)

/-- A name is made of letters, digits and underscores only. -/
theorem not_mem_of_isName (h : IsName n) {c : Char} (hc : isWordChar c = false) :
    c ∉ n.toList := by
  intro hmem
  rw [Identifier.isWordChar_of_mem ⟨n.toList, h⟩ hmem] at hc
  cases hc

/-- A word is read as the type of that name. -/
theorem parse?_isName (h : IsName n) : TypeExpression.parse? n.toList = some (.name n) := by
  have hread := TypeExpression.parse?_text (.name .none ⟨n.toList, h⟩ .none)
  simpa [TypeExpression.Spelling.text, TypeExpression.Spelling.expression, Text.Blanks.none]
    using hread

end Names

/-! ### What is written -/

section Written

variable {s : Schema} {front name back : String}

theorem WellFormed.pascalCase_model (h : s.WellFormed) {m : ModelDeclaration} (hm : m ∈ s.models) :
    PascalCase m.name :=
  h.spelled _ (List.mem_append_right _ (List.mem_map_of_mem hm))

theorem eq_of_mem_moduleNames {hasEnums hasKeys : Bool} {models : List ModelDeclaration}
    (h : name ∈ moduleNames hasEnums hasKeys models) :
    name = "enums" ∨ name = "keys" ∨ ∃ m ∈ models, name = moduleName m := by
  simp only [moduleNames, List.mem_append, List.mem_map] at h
  rcases h with (h | h) | ⟨m, hm, rfl⟩
  · split at h
    · exact .inl (List.mem_singleton.1 h)
    · cases h
  · split at h
    · exact .inr (.inl (List.mem_singleton.1 h))
    · cases h
  · exact .inr (.inr ⟨m, hm, rfl⟩)

/-- Every declared identifier is a word. -/
theorem WellFormed.isName_of_declares (h : s.WellFormed) (hn : s.Declares front name back) :
    IsName name := by
  have hdeclared {n : String} (hmem : n ∈ s.declaredNames) : IsName n := (h.spelled n hmem).isName
  cases hn with
  | module hmodule =>
    rcases eq_of_mem_moduleNames hmodule with rfl | rfl | ⟨m, hm, rfl⟩
    · decide
    · decide
    · exact isName_toSnakeCase (h.pascalCase_model hm)
  | imported hi => exact hdeclared (by simp [declaredNames, List.mem_map_of_mem hi])
  | enumeration he => exact hdeclared (by simp [declaredNames, List.mem_map_of_mem he])
  | variant he hv => exact ((h.enums _ he).spelled _ hv).isName
  | key hk => exact hdeclared (by simp [declaredNames, List.mem_map_of_mem hk])
  | part hk hf => exact ((h.keys _ hk).named.spelled _ hf).isName
  | model hm => exact hdeclared (by simp [declaredNames, List.mem_map_of_mem hm])
  | field hm hf => exact ((h.models _ hm).named.spelled _ hf).isName

/-- What stands in a line stands in the text that the line belongs to. -/
theorem infix_ofLines {lines : List String} {line : String} (hline : line ∈ lines)
    {text : List Char} (h : text <:+: line.toList) : text <:+: (ofLines lines).toList := by
  rw [toList_ofLines, List.flatMap_def]
  refine List.IsInfix.trans ?_ (List.infix_of_mem_flatten (List.mem_map_of_mem hline))
  exact List.infix_append_of_infix_left h

theorem isPrefix_beforePathMark (cs : List Char) : Text.beforePathMark cs <+: cs := by
  fun_induction Text.beforePathMark cs with
  | case1 => exact List.nil_prefix
  | case2 c rest _ ih => exact (List.prefix_cons_inj c).2 ih
  | case3 => exact List.nil_prefix

theorem isSuffix_lastPathPart (cs : List Char) : Text.lastPathPart cs <:+ cs := by
  have h := isPrefix_beforePathMark cs.reverse
  rwa [← List.reverse_suffix, List.reverse_reverse] at h

theorem suffix_importLine (i : ImportDeclaration) :
    i.name.toList ++ [';'] <:+ (importLine i).toList := by
  rw [importLine]
  generalize Text.trim i.path.toList = path
  split
  · next hlast =>
    obtain ⟨front, hfront⟩ := isSuffix_lastPathPart path
    have hpath : path = front ++ i.name.toList := by
      rw [← hlast, String.toList_ofList, hfront]
    refine ⟨"pub use ".toList ++ front, ?_⟩
    simp [hpath]
  · refine ⟨"pub use ".toList ++ path ++ " as ".toList, ?_⟩
    simp

theorem infix_front (text more rest : String) : text.toList <:+: (text ++ more ++ rest).toList := by
  simp only [String.toList_append, List.append_assoc]
  exact (List.prefix_append _ _).isInfix

theorem mem_fieldLines (f : ResolvedField) :
    "    " ++ f.name ++ ": " ++ f.type.written ++ "," ∈ fieldLines f :=
  List.mem_append_right _ List.mem_cons_self

variable {m : ModelDeclaration} {fields : List ResolvedField}

theorem infix_modelFile {line : String} (hline : line ∈ structLines m fields) {text : List Char}
    (h : text <:+: line.toList) : text <:+: (modelFile m fields).toList :=
  infix_ofLines (List.mem_append_right _ hline) h

/-- A field that is declared stands in the file of its record. -/
theorem field_infix_modelFile {f : FieldDeclaration}
    (hfields : List.Forall₂ s.FieldComesTo m.fields fields) (hf : f ∈ m.fields) :
    ("    " ++ f.name ++ ": ").toList <:+: (modelFile m fields).toList := by
  obtain ⟨r, hr, hname, -⟩ : ∃ r ∈ fields, s.FieldComesTo f r := by
    obtain ⟨r, hr, hfr⟩ := mem_of_forall₂ hfields.flip hf
    exact ⟨r, hr, hfr⟩
  rw [← hname]
  have hline : "    " ++ r.name ++ ": " ++ r.type.written ++ "," ∈ structLines m fields := by
    refine List.mem_append_left _ (List.mem_append_right _ ?_)
    exact List.mem_flatMap.2 ⟨r, hr, mem_fieldLines r⟩
  exact infix_modelFile hline (infix_front _ _ _)

/-- Every declared identifier stands in one of the files, between the texts that declare it. -/
theorem written_of_declares {models : List (ModelDeclaration × List ResolvedField)}
    (hfirst : models.map Prod.fst = s.models)
    (hall : ∀ r ∈ models, s.resolveModel r.1 = .ok r.2) (hn : s.Declares front name back) :
    ∃ f ∈ s.filesOf models, (front ++ name ++ back).toList <:+: f.content.toList := by
  have hmodels {m : ModelDeclaration} (hm : m ∈ s.models) : ∃ fields,
      ⟨modelFileName m, modelFile m fields⟩ ∈ s.filesOf models ∧
      List.Forall₂ s.FieldComesTo m.fields fields := by
    rw [← hfirst] at hm
    obtain ⟨r, hr, rfl⟩ := List.mem_map.1 hm
    exact ⟨r.2, modelFile_mem_filesOf hr, forall₂_of_resolveModel (hall r hr)⟩
  cases hn with
  | module hmodule =>
    refine ⟨_, s.indexFile_mem_filesOf models, infix_ofLines ?_ List.infix_rfl⟩
    simp only [List.mem_append, List.mem_map]
    exact .inl (.inl (.inl (.inr ⟨_, hmodule, rfl⟩)))
  | @imported i hi =>
    have hline : importLine i ∈ s.imports.map importLine := List.mem_map_of_mem hi
    refine ⟨_, s.indexFile_mem_filesOf models, infix_ofLines ?_ (by simpa using (suffix_importLine i).isInfix)⟩
    exact List.mem_append_left _ (List.mem_append_right _ hline)
  | @enumeration e he =>
    have hline : "pub enum " ++ e.name ++ " \x7b" ∈ enumLines e := by simp [enumLines]
    refine ⟨_, enumsFile_mem_filesOf models he, infix_ofLines (List.mem_cons_of_mem _ ?_) List.infix_rfl⟩
    exact List.mem_flatMap.2 ⟨e, he, hline⟩
  | @variant e _ he hv =>
    have hline : "    " ++ name ++ "," ∈ enumLines e := by
      refine List.mem_append_left _ (List.mem_append_right _ (List.mem_flatMap.2 ⟨name, hv, ?_⟩))
      exact List.mem_append_right _ List.mem_cons_self
    refine ⟨_, enumsFile_mem_filesOf models he, infix_ofLines (List.mem_cons_of_mem _ ?_) List.infix_rfl⟩
    exact List.mem_flatMap.2 ⟨e, he, hline⟩
  | @key k hk =>
    have hline : "pub struct " ++ k.name ++ " \x7b" ∈ keyLines k := by simp [keyLines]
    refine ⟨_, keysFile_mem_filesOf models hk, infix_ofLines (List.mem_append_right _ ?_) List.infix_rfl⟩
    exact List.mem_flatMap.2 ⟨k, hk, hline⟩
  | @part k f hk hf =>
    have hline : "    pub " ++ f.name ++ ": " ++ String.ofList (Text.trim f.type.toList) ++ "," ∈
        keyLines k :=
      List.mem_append_left _ (List.mem_append_right _ (List.mem_map.2 ⟨f, hf, rfl⟩))
    have hlines := List.mem_append_right [header, "", "#[allow(unused_imports)]", "use super::*;"]
      (List.mem_flatMap.2 ⟨k, hk, hline⟩)
    exact ⟨_, keysFile_mem_filesOf models hk, infix_ofLines hlines (infix_front _ _ _)⟩
  | @model m hm =>
    obtain ⟨fields, hfile, -⟩ := hmodels hm
    have hline : "pub struct " ++ m.name ++ " \x7b" ∈ structLines m fields := by simp [structLines]
    refine ⟨_, hfile, ?_⟩
    dsimp only
    exact infix_modelFile hline List.infix_rfl
  | field hm hf =>
    obtain ⟨fields, hfile, hfields⟩ := hmodels hm
    refine ⟨_, hfile, ?_⟩
    dsimp only
    exact field_infix_modelFile hfields hf

end Written

/-! ### Which structs can be expanded -/

section Expanding

variable {s : Schema} {m : ModelDeclaration}

/-- The names of the fields stay the same when their types are resolved. -/
theorem namesField_iff {fields : List ResolvedField}
    (h : List.Forall₂ s.FieldComesTo m.fields fields) :
    (∀ r ∈ fields, Rule.NamesField r.name) ↔ ∀ f ∈ m.fields, Rule.NamesField f.name := by
  constructor
  · intro hfields f hf
    obtain ⟨r, hr, hname, -⟩ := mem_of_forall₂ h.flip hf
    exact hname ▸ hfields r hr
  · intro hfields r hr
    obtain ⟨f, hf, hname, -⟩ := mem_of_forall₂ h hr
    exact hname ▸ hfields f hf

/-- The struct of a record can be expanded unless a keyword stands in the place of a name or the
type of the key is taken for a kind of field. -/
theorem WellFormed.expand_iff (h : s.WellFormed) (hm : m ∈ s.models) :
    (∃ fields ts, s.resolveModel m = .ok fields ∧
        Blueprint.expand (attributeText fields) (structText m fields) = .ok ts) ↔
      Source.isIdentifier m.name = true ∧ (∀ f ∈ m.fields, Rule.NamesField f.name) ∧
        ∀ k ∈ m.keyFields, ∀ name, TypeExpression.parse? k.type.toList = some (.name name) →
          FieldShape.ofMarker? name = none := by
  obtain ⟨fields, hfields⟩ := h.exists_resolveModel hm
  obtain ⟨k, identity, hk, hidentity, hkey⟩ := h.exists_key hm hfields
  have hresolved := h.resolved hm hfields
  have hsource {b : Blueprint} := ofSource_eq_ok_iff (h.pascalCase_model hm).isName
    (fun f hf => (hresolved f hf).1) (fun f hf => (hresolved f hf).2) hkey (b := b)
  have htype : TypeExpression.parse? k.type.toList = some (.name identity) := by
    obtain ⟨t, ht, hcomes⟩ := resolve_eq_ok_iff.1 hidentity
    cases hcomes
    exact ht
  have hmarker : (∀ k ∈ m.keyFields, ∀ name, TypeExpression.parse? k.type.toList =
      some (.name name) → FieldShape.ofMarker? name = none) ↔
      FieldShape.ofMarker? identity = none := by
    simp [hk, htype]
  rw [hmarker, ← namesField_iff (forall₂_of_resolveModel hfields), ← and_assoc]
  constructor
  · rintro ⟨fields', ts, hfields', hts⟩
    obtain rfl := Except.ok.inj (hfields.symm.trans hfields')
    obtain ⟨b, hb, -⟩ := Blueprint.expand_eq_ok_iff.1 hts
    obtain ⟨hfree, hnone, -⟩ := hsource.1 hb
    exact ⟨hfree, hnone⟩
  · rintro ⟨hfree, hnone⟩
    exact ⟨fields, _, hfields, Blueprint.expand_eq_ok_iff.2 ⟨_, hsource.2 ⟨hfree, hnone, rfl⟩, rfl⟩⟩

end Expanding

section Clearing

variable {s : Schema}

/-- Every declared type is declared in some file. -/
theorem declares_of_mem_declaredNames {name : String} (h : name ∈ s.declaredNames) :
    ∃ front back, s.Declares front name back := by
  simp only [declaredNames, List.mem_append, List.mem_map] at h
  obtain ((⟨i, hi, rfl⟩ | ⟨e, he, rfl⟩) | ⟨k, hk, rfl⟩) | ⟨m, hm, rfl⟩ := h
  · exact ⟨_, _, .imported hi⟩
  · exact ⟨_, _, .enumeration he⟩
  · exact ⟨_, _, .key hk⟩
  · exact ⟨_, _, .model hm⟩

/-- Where the names keep clear of keywords, so does everything that is declared. -/
theorem WellFormed.isIdentifier_of_clear (h : s.WellFormed) (hclear : s.Clear)
    {front name back : String} (hn : s.Declares front name back) :
    Source.isIdentifier name = true := by
  rw [isIdentifier_iff]
  have hdeclared {n : String} (hmem : n ∈ s.declaredNames) : n ∉ keywords := by
    rw [mem_keywords_iff_of_pascalCase (h.spelled n hmem)]
    rintro rfl
    exact hclear.types hmem
  cases hn with
  | module hmodule =>
    rcases eq_of_mem_moduleNames hmodule with rfl | rfl | ⟨m, hm, rfl⟩
    · decide
    · decide
    · rw [moduleName, toSnakeCase_mem_keywords_iff (h.pascalCase_model hm)]
      exact hclear.modules m hm
  | imported hi => exact hdeclared (by simp [declaredNames, List.mem_map_of_mem hi])
  | enumeration he => exact hdeclared (by simp [declaredNames, List.mem_map_of_mem he])
  | variant he hv =>
    rw [mem_keywords_iff_of_pascalCase ((h.enums _ he).spelled _ hv)]
    rintro rfl
    exact hclear.variants _ he hv
  | key hk => exact hdeclared (by simp [declaredNames, List.mem_map_of_mem hk])
  | part hk hf => exact hclear.parts _ hk _ hf
  | model hm => exact hdeclared (by simp [declaredNames, List.mem_map_of_mem hm])
  | field hm hf => exact hclear.fields _ hm _ hf

/-- Where everything that is declared keeps clear of keywords, so do the names. -/
theorem WellFormed.clear_of_isIdentifier (h : s.WellFormed)
    (hnames : ∀ front name back, s.Declares front name back → Source.isIdentifier name = true)
    (hkeys : ∀ m ∈ s.models, ∀ k ∈ m.keyFields, ∀ name,
      TypeExpression.parse? k.type.toList = some (.name name) →
        FieldShape.ofMarker? name = none) : s.Clear := by
  have hself : Source.isIdentifier "Self" ≠ true := by decide
  refine ⟨fun hmem => ?_, fun e he hv => hself (hnames _ _ _ (.variant he hv)),
    fun k hk f hf => isIdentifier_iff.1 (hnames _ _ _ (.part hk hf)),
    fun m hm f hf => isIdentifier_iff.1 (hnames _ _ _ (.field hm hf)), fun m hm => ?_, hkeys⟩
  · obtain ⟨front, back, hn⟩ := declares_of_mem_declaredNames hmem
    exact hself (hnames _ _ _ hn)
  · have hmodule : toSnakeCase m.name ∈
        moduleNames (!s.enums.isEmpty) (!s.keys.isEmpty) s.models :=
      List.mem_append_right _ (List.mem_map.2 ⟨m, hm, rfl⟩)
    rw [← toSnakeCase_mem_keywords_iff (h.pascalCase_model hm), ← isIdentifier_iff]
    exact hnames _ _ _ (.module hmodule)

end Clearing

/-- The code of a schema without faults declares words only, each of which stands in one of its
files.  All of it can be used exactly if the names in the schema keep clear of keywords, and the
types of its keys of the kinds of fields. -/
theorem acceptable_iff_clear (s : Schema) (h : s.faults = []) :
    ∃ g, s.generate = .ok g ∧
      (∀ front name back, s.Declares front name back →
        IsName name ∧ ∃ f ∈ g.files, (front ++ name ++ back).toList <:+: f.content.toList) ∧
      (s.Acceptable ↔ s.Clear) := by
  have hwell := faults_eq_nil_iff_wellFormed.1 h
  obtain ⟨models, g, hg, hfirst, hall, hfiles, -⟩ := hwell.exists_generate
  refine ⟨g, hg, fun front name back hn => ⟨hwell.isName_of_declares hn, ?_⟩, ?_⟩
  · rw [hfiles]
    exact written_of_declares hfirst hall hn
  · constructor
    · rintro ⟨hnames, hexpand⟩
      exact hwell.clear_of_isIdentifier hnames fun m hm =>
        ((hwell.expand_iff hm).1 (hexpand m hm)).2.2
    · intro hclear
      have hnames (front name back : String) (hn : s.Declares front name back) :=
        hwell.isIdentifier_of_clear hclear hn
      refine ⟨hnames, fun m hm => (hwell.expand_iff hm).2 ⟨?_, fun f hf => ?_, hclear.keys m hm⟩⟩
      · exact hnames _ _ _ (.model hm)
      · exact .inl (hnames _ _ _ (.field hm hf))

/-- The names of the lamps keep clear, so all of their code can be used. -/
theorem acceptable_iff_clear_of_lamps : lamps.faults = [] ∧ lamps.Clear ∧ lamps.Acceptable := by
  have hclear : lamps.Clear := by
    refine ⟨by decide, by decide, by decide, by decide, by decide, ?_⟩
    intro m hm k hk name hname
    obtain rfl := List.mem_singleton.1 hm
    obtain rfl := List.mem_singleton.1 hk
    obtain rfl : "Slot" = name := by
      have hslot := (parse?_isName (by decide)).symm.trans hname
      simpa using hslot
    decide
  obtain ⟨g, -, -, hacceptable⟩ := acceptable_iff_clear lamps faults_lamps
  exact ⟨faults_lamps, hclear, hacceptable.2 hclear⟩

/-- A schema with a record that has the name of a keyword, and a record whose key has a type with
the name of a kind of field. -/
def gauges : Schema where
  output := "src/generated"
  imports := []
  enums := []
  keys := [⟨"Scalar", [⟨"part", "u64", .value⟩]⟩]
  models := [⟨"Type", [⟨"id", "u64", .key⟩]⟩, ⟨"Gauge", [⟨"unit", "Scalar", .key⟩]⟩]

theorem faults_gauges : gauges.faults = [] := by
  refine faults_eq_nil_of_resolve (by decide) (by decide) fun m hm f hf => ?_
  rcases List.mem_pair.1 hm with rfl | rfl
  · obtain rfl := List.mem_singleton.1 hf
    exact ⟨_, resolve_eq_ok_iff.2 ⟨_, parse?_isName (by decide), .key (by decide)⟩⟩
  · obtain rfl := List.mem_singleton.1 hf
    exact ⟨_, resolve_eq_ok_iff.2 ⟨_, parse?_isName (by decide), .key (by decide)⟩⟩

/-- The schema has no faults, and yet a module is named by a keyword and a struct is refused. -/
theorem gauges_not_acceptable :
    gauges.faults = [] ∧ ¬ gauges.Acceptable ∧
      (gauges.Declares "mod " "type" ";" ∧ Source.isIdentifier "type" = false) ∧
      ∃ m ∈ gauges.models, ∃ fields, gauges.resolveModel m = .ok fields ∧
        ∀ ts, Blueprint.expand (attributeText fields) (structText m fields) ≠ .ok ts := by
  have hwell := faults_eq_nil_iff_wellFormed.1 faults_gauges
  let gauge : ModelDeclaration := ⟨"Gauge", [⟨"unit", "Scalar", .key⟩]⟩
  have hgauge : gauge ∈ gauges.models := by decide
  obtain ⟨fields, hfields⟩ := hwell.exists_resolveModel hgauge
  have hmodule : gauges.Declares "mod " "type" ";" := .module (by decide)
  have hkeyword : Source.isIdentifier "type" = false := by decide
  refine ⟨faults_gauges, fun h => ?_, ⟨hmodule, hkeyword⟩, gauge, hgauge, fields, hfields, ?_⟩
  · rw [h.named _ _ _ hmodule] at hkeyword
    cases hkeyword
  intro ts hts
  obtain ⟨-, -, hkey⟩ := (hwell.expand_iff hgauge).1 ⟨fields, ts, hfields, hts⟩
  have hscalar : FieldShape.ofMarker? "Scalar" = none :=
    hkey ⟨"unit", "Scalar", .key⟩ List.mem_cons_self "Scalar" (parse?_isName (by decide))
  revert hscalar
  decide

end Schema

end VersionedRecords
