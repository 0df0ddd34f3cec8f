import VersionedRecords.Proofs.Schema.Declared
import VersionedRecords.Proofs.Schema.WellFormed
import VersionedRecords.Schema.Generate

/-!
Reading a generated struct back.

A record of a schema is written out as a struct, and the struct is read by something that knows
nothing of the schema: it has its own idea of what is a key, of the kinds of fields and of bare
names, and it puts the key first.  What it makes of the struct is the record nevertheless, and both
sides come to the same fingerprint.
-/

namespace VersionedRecords

open Source Source.Rule

namespace Schema

/-! ### Names -/

section Names

variable {n : String}

theorem isAlpha_of_isUpper {c : Char} (h : c.isUpper = true) : c.isAlpha = true := by
  have hor : c.isAlpha = (c.isUpper || c.isLower) := rfl
  rw [hor, h, Bool.true_or]

theorem isAlpha_of_isLower {c : Char} (h : c.isLower = true) : c.isAlpha = true := by
  have hor : c.isAlpha = (c.isUpper || c.isLower) := rfl
  rw [hor, h, Bool.or_true]

theorem isName_of_cons {c : Char} {rest : List Char} (hname : n.toList = c :: rest)
    (hc : c.isAlpha = true ∨ c = '_') (hrest : ∀ d ∈ rest, isWordChar d = true) : IsName n := by
  rw [IsName, hname, isIdentifier, Bool.and_eq_true, Bool.or_eq_true, beq_iff_eq, List.all_eq_true]
  exact ⟨hc, hrest⟩

theorem PascalCase.isName (h : PascalCase n) : IsName n := by
  obtain ⟨c, rest, hname, hc, hrest⟩ := h
  refine isName_of_cons hname (.inl (isAlpha_of_isUpper hc)) fun d hd => ?_
  rw [isWordChar, hrest d hd, Bool.true_or]

theorem SnakeCase.isName (h : SnakeCase n) : IsName n := by
  obtain ⟨c, rest, hname, hc, hrest⟩ := h
  refine isName_of_cons hname (hc.imp_left isAlpha_of_isLower) fun d hd => ?_
  rw [isWordChar_iff]
  rcases hrest d hd with h | h | h
  · exact .inl (.inl (isAlpha_of_isLower h))
  · exact .inl (.inr h)
  · exact .inr h

/-- `Self` is the only keyword that is spelled like a type. -/
theorem PascalCase.namesType (h : PascalCase n) : NamesType n := by
  have hkeywords : ∀ k ∈ keywords, isPascalCase k = true → k = "Self" := by decide
  by_cases hn : n ∈ keywords
  · exact .inr (hkeywords n hn (isPascalCase_iff.2 h))
  · refine .inl ?_
    simp [Source.isIdentifier, hn]

variable {s : Schema}

/-- What can be referred to can be written down as a type. -/
theorem WellFormed.of_knows (h : s.WellFormed) (hn : s.Knows n) : IsName n ∧ NamesType n := by
  rcases hn with hn | hn
  · have hprimitives : ∀ p ∈ primitives,
        isIdentifier p.toList = true ∧ Source.isIdentifier p = true := by
      decide
    exact ⟨(hprimitives n hn).1, .inl (hprimitives n hn).2⟩
  · exact ⟨(h.spelled n hn).isName, (h.spelled n hn).namesType⟩

theorem knows_of_classOf? {c : TypeClass} (h : s.classOf? n = some c) : s.Knows n :=
  knows_iff.2 ⟨c, mem_namesOf_of_classOf? h⟩

theorem knows_of_checkIdentity (h : s.checkIdentity n = .ok ()) : s.Knows n := by
  obtain ⟨c, hc, -⟩ := checkIdentity_eq_ok_iff'.1 h
  exact knows_of_classOf? hc

end Names

/-! ### Resolved fields -/

section Resolved

variable {s : Schema} {role : FieldRole} {t : TypeExpression} {r : ResolvedType}

theorem ComesTo.knows (h : s.ComesTo role t r) : ∀ n ∈ r.names, s.Knows n := by
  cases h with
  | key hname => simpa [ResolvedType.names] using knows_of_checkIdentity hname
  | name hname => simpa [ResolvedType.names] using knows_of_classOf? hname
  | set helement => simpa [ResolvedType.names] using knows_of_checkIdentity helement
  | map hkey hvalue =>
    simpa [ResolvedType.names] using ⟨knows_of_checkIdentity hkey, knows_of_classOf? hvalue⟩

theorem arity_shape (c : TypeClass) : c.shape.arity = 1 := by
  cases c <;> rfl

theorem arity_mapShape (c : TypeClass) : c.mapShape.arity = 2 := by
  cases c <;> rfl

/-- A type comes to something that goes with the role of the field. -/
theorem ComesTo.sorted (h : s.ComesTo role t r) {name : String}
    (hname : name ∈ reservedFieldNames → role = .key ∧ name = "key") :
    ResolvedField.Sorted ⟨name, role, r⟩ := by
  have hvalue (hrole : role = .value) : name ∉ reservedFieldNames := by
    intro hreserved
    rw [hrole] at hname
    cases (hname hreserved).1
  cases h with
  | key => exact .key fun hreserved => (hname hreserved).2
  | name => exact .value (hvalue rfl) (arity_shape _).symm
  | set => exact .value (hvalue rfl) rfl
  | map => exact .value (hvalue rfl) (arity_mapShape _).symm

theorem ComesTo.named (h : s.ComesTo role t r) (hs : s.WellFormed) : r.Named := by
  have hnames : ∀ n ∈ r.names, IsName n := fun n hn => (hs.of_knows (h.knows n hn)).1
  have hsorted : ResolvedField.Sorted ⟨"value", role, r⟩ :=
    h.sorted fun hreserved => absurd hreserved (by decide)
  cases hsorted with
  | key => exact hnames _ List.mem_cons_self
  | value _ harity => exact ⟨harity, hnames⟩

variable {m : ModelDeclaration} {fields : List ResolvedField}

theorem mem_of_forall₂ {α β : Type} {R : α → β → Prop} {as : List α} {bs : List β}
    (h : List.Forall₂ R as bs) {b : β} (hb : b ∈ bs) : ∃ a ∈ as, R a b := by
  induction h with
  | nil => cases hb
  | cons hab _ ih =>
    rcases List.mem_cons.1 hb with rfl | hb
    · exact ⟨_, List.mem_cons_self, hab⟩
    · obtain ⟨a, ha, hR⟩ := ih hb
      exact ⟨a, List.mem_cons_of_mem _ ha, hR⟩

/-- What is true of the resolved fields of a record in a well-formed schema. -/
theorem WellFormed.resolved (h : s.WellFormed) (hm : m ∈ s.models)
    (hfields : s.resolveModel m = .ok fields) : ∀ r ∈ fields, Spelled r ∧ r.Sorted := by
  intro r hr
  obtain ⟨f, hf, hname, hrole, t, -, hcomes⟩ := mem_of_forall₂ (forall₂_of_resolveModel hfields) hr
  obtain ⟨name, role, type⟩ := r
  obtain ⟨rfl, rfl⟩ : name = f.name ∧ role = f.role := ⟨hname, hrole⟩
  have hwell := h.models m hm
  have htypes : ∀ n ∈ type.names, NamesType n := fun n hn => (h.of_knows (hcomes.knows n hn)).2
  exact ⟨⟨(hwell.named.spelled f hf).isName, hcomes.named h, htypes⟩,
    hcomes.sorted (hwell.unreserved f hf)⟩

/-- The resolved fields with some role belong to the declared fields with it. -/
theorem forall₂_filter {declared : List FieldDeclaration}
    (h : List.Forall₂ s.FieldComesTo declared fields) (role : FieldRole) :
    List.Forall₂ (fun f r => f.role = role ∧ s.FieldComesTo f r)
      (declared.filter fun f => f.role == role) (fields.filter fun r => r.role == role) := by
  induction h with
  | nil => exact .nil
  | @cons f r _ _ hfr _ ih =>
    have hroles : r.role = f.role := hfr.2.1
    by_cases hrole : f.role = role
    · rw [List.filter_cons_of_pos (by simp [hrole]),
        List.filter_cons_of_pos (by simp [hroles, hrole])]
      exact .cons ⟨hrole, hfr⟩ ih
    · rw [List.filter_cons_of_neg (by simp [hrole]),
        List.filter_cons_of_neg (by simp [hroles, hrole])]
      exact ih

/-- The only key of a record is resolved to the only key of its fields. -/
theorem WellFormed.exists_key (h : s.WellFormed) (hm : m ∈ s.models)
    (hfields : s.resolveModel m = .ok fields) :
    ∃ (k : FieldDeclaration) (identity : String), m.keyFields = [k] ∧
      s.resolve .key k.type = .ok (.identity identity) ∧
      fields.filter (fun r => r.role == .key) = [⟨k.name, .key, .identity identity⟩] := by
  obtain ⟨k, hk⟩ := (h.models m hm).keyed
  have hfilter := forall₂_filter (forall₂_of_resolveModel hfields) .key
  have hkeys : m.fields.filter (fun f => f.role == .key) = [k] := hk
  rw [hkeys] at hfilter
  obtain ⟨r, rest, ⟨hkeyed, hname, hrole, t, ht, hcomes⟩, hnil, hr⟩ :=
    List.forall₂_cons_left_iff.1 hfilter
  obtain rfl := List.forall₂_nil_left_iff.1 hnil
  rw [hkeyed] at hrole hcomes
  obtain ⟨name, role, type⟩ := r
  dsimp only at hname hrole hcomes
  subst hname hrole
  cases hcomes with
  | key hidentity => exact ⟨k, _, hk, resolve_eq_ok_iff.2 ⟨_, ht, .key hidentity⟩, hr⟩

end Resolved

/-! ### Descriptions -/

section Descriptions

variable {name : String}

theorem compact_word (hname : IsName name) : Token.compact [.word name] = name := by
  have hblank : name.toList.filter (fun c => !Text.isBlank c) = name.toList := by
    rw [List.filter_eq_self]
    intro c hc
    rw [isBlank_of_isWordChar (Identifier.isWordChar_of_mem ⟨name.toList, hname⟩ hc)]
    rfl
  simp [Token.compact, Token.written, hblank]

theorem beforePathMark_of_isWordChar {cs : List Char} (h : ∀ c ∈ cs, isWordChar c = true) :
    Text.beforePathMark cs = cs := by
  induction cs with
  | nil => rfl
  | cons c cs ih =>
    have hcolon : c ≠ ':' := by
      rintro rfl
      exact absurd (h ':' List.mem_cons_self) (by decide)
    have hrest := ih fun d hd => h d (List.mem_cons_of_mem _ hd)
    simp [Text.beforePathMark, hcolon, hrest]

/-- A plain name is bare. -/
theorem bareTypeName_eq (hname : IsName name) : Text.bareTypeName name = name := by
  have hword : ∀ c ∈ name.toList, isWordChar c = true :=
    fun c hc => Identifier.isWordChar_of_mem ⟨name.toList, hname⟩ hc
  have htake : name.toList.takeWhile (· != '<') = name.toList := by
    have hplain : ∀ c ∈ name.toList, (c != '<') = true := by
      intro c hc
      rw [bne_iff_ne]
      rintro rfl
      exact absurd (hword _ hc) (by decide)
    have happend : (name.toList ++ []).takeWhile (· != '<') =
        name.toList ++ [].takeWhile (· != '<') := List.takeWhile_append_of_pos hplain
    simpa using happend
  have htrim : Text.trim name.toList = name.toList := by
    simpa [Text.Blanks.none] using (Identifier.solid ⟨name.toList, hname⟩).trim_padded .none .none
  have hlast : Text.lastPathPart name.toList = name.toList := by
    rw [Text.lastPathPart, beforePathMark_of_isWordChar (by simpa using hword), List.reverse_reverse]
  rw [Text.bareTypeName, htake, htrim, hlast, String.ofList_toList]

/-- The key is described by its bare name. -/
theorem bareName_keyField {identity : String} (hidentity : IsName identity) :
    (ResolvedField.keyField ⟨name, .key, .identity identity⟩).describe.typeName = identity := by
  have htokens : Tree.allTokens (ResolvedType.identity identity).trees = [.word identity] := rfl
  simp only [Blueprint.KeyField.describe, ResolvedField.keyField, htokens, compact_word hidentity,
    bareTypeName_eq hidentity]

theorem bareName_valueField {shape : FieldShape} {arguments : List String}
    (harity : arguments.length = shape.arity) (hnames : ∀ a ∈ arguments, IsName a) :
    (ResolvedField.valueField ⟨name, .value, .value shape arguments⟩).describe.typeName =
      (ResolvedType.value shape arguments).bareName := by
  have hone (h : arguments.length = 1) :
      Text.bareTypeName (Token.compact ((arguments.map fun a => [.word a]).headD [])) =
        Text.bareTypeName (", ".intercalate arguments) := by
    obtain ⟨a, rfl⟩ := List.length_eq_one_iff.1 h
    rw [String.intercalate_singleton, List.map_singleton, List.headD_cons,
      compact_word (hnames a List.mem_cons_self)]
  cases shape with
  | scalar | attached | nested => exact hone harity
  | keySet | valueMap | modelMap => rfl

variable {m : ModelDeclaration} {fields : List ResolvedField} {key : ResolvedField}

/-- The description of a blueprint has the same fields as the schema, in another order, each with
the same bare name. -/
theorem shape_describe (hfields : ∀ f ∈ fields, Spelled f ∧ f.Sorted)
    (hkey : fields.filter (fun f => f.role == .key) = [key]) :
    (blueprint m key fields).describe.shape.Perm
      (fields.map fun f => (f.name, f.type.bareName)) := by
  have hbare : ∀ f ∈ fields, f.role = .value →
      ((f.valueField.describe.name, f.valueField.describe.typeName) : String × String) =
        (f.name, f.type.bareName) := by
    intro f hf hrole
    obtain ⟨⟨-, hnamed, -⟩, hsorted⟩ := hfields f hf
    cases hsorted with
    | key => cases hrole
    | value _ harity => exact congrArg _ (bareName_valueField harity hnamed.2)
  have hmem : key ∈ fields.filter (fun f => f.role == .key) := by simp [hkey]
  have hfirst : ((key.keyField.describe.name, key.keyField.describe.typeName) : String × String) =
      (key.name, key.type.bareName) := by
    obtain ⟨hin, hrole⟩ := List.mem_filter.1 hmem
    obtain ⟨⟨-, hnamed, -⟩, hsorted⟩ := hfields key hin
    cases hsorted with
    | key => exact congrArg _ (bareName_keyField hnamed)
    | value => cases hrole
  have hvalues : (fields.filter fun f => f.role == .value).map
        (fun f => (f.valueField.describe.name, f.valueField.describe.typeName)) =
      (fields.filter fun f => f.role == .value).map fun f => (f.name, f.type.bareName) := by
    refine List.map_congr_left fun f hf => ?_
    obtain ⟨hin, hrole⟩ := List.mem_filter.1 hf
    exact hbare f hin (by simpa using hrole)
  have hsplit : (fields.filter fun f => !(f.role == .key)) =
      fields.filter fun f => f.role == .value := by
    refine List.filter_congr fun f _ => ?_
    cases f.role <;> rfl
  have hshape : (blueprint m key fields).describe.shape =
      (fields.filter (fun f => f.role == .key) ++ fields.filter fun f => !(f.role == .key)).map
        fun f => (f.name, f.type.bareName) := by
    rw [hkey, hsplit, List.map_append, ← hvalues, List.map_singleton, ← hfirst]
    simp [Description.shape, Blueprint.describe, blueprint]
  rw [hshape]
  exact (List.filter_append_perm _ fields).map _

/-- Both sides come to the same fingerprint. -/
theorem fingerprint_describe (hfields : ∀ f ∈ fields, Spelled f ∧ f.Sorted)
    (hkey : fields.filter (fun f => f.role == .key) = [key]) :
    (blueprint m key fields).describe.fingerprint = ResolvedField.fingerprint fields :=
  Fingerprint.ofShape_congr (shape_describe hfields hkey)

end Descriptions

end Schema

/-! ### Generated code -/

namespace Source

theorem infix_inside (b : Bracket) (ts : List Token) : ts <:+: Token.inside b ts :=
  ⟨[.enter b], [.leave b], rfl⟩

theorem Function.body_infix (f : Function) : f.body <:+: f.tokens := by
  rw [Function.tokens]
  exact List.infix_append_of_infix_right (infix_inside _ _)

namespace Implementation

variable {i : Implementation}

/-- What stands between the braces of an implementation. -/
theorem infix_tokens {ts : List Token}
    (h : ts <:+: i.functions.flatMap Function.tokens ++ i.constants) : ts <:+: i.tokens := by
  rw [tokens, List.append_assoc (i.types.flatMap _)]
  refine List.infix_append_of_infix_right (List.infix_cons (.trans ?_ (infix_inside _ _)))
  exact List.infix_append_of_infix_right h

theorem infix_of_body {f : Function} (hf : f ∈ i.functions) {ts : List Token} (h : ts <:+: f.body) :
    ts <:+: i.tokens := by
  refine infix_tokens (List.infix_append_of_infix_left ?_)
  rw [List.flatMap_def]
  exact (h.trans f.body_infix).trans (List.infix_of_mem_flatten (List.mem_map_of_mem hf))

theorem constants_infix (i : Implementation) : i.constants <:+: i.tokens :=
  infix_tokens (List.infix_append_of_infix_right (List.infix_refl _))

end Implementation

end Source

namespace Blueprint

variable {b : Blueprint}

theorem expand_eq_ok_iff {arguments item : String} {ts : List Token} :
    expand arguments item = .ok ts ↔ ∃ b, ofSource arguments item = .ok b ∧ ts = b.tokens := by
  rw [expand]
  cases ofSource arguments item with
  | error e => simp [Except.map]
  | ok b => simp [Except.map, eq_comm]

theorem infix_of_snapshot {ts : List Token} (h : ts <:+: b.snapshotTokens) : ts <:+: b.tokens := by
  rw [tokens, List.append_assoc, List.append_assoc]
  exact List.infix_append_of_infix_left h

/-- The description of a record stands in its code. -/
theorem describe_infix (b : Blueprint) : b.describe.tokens <:+: b.tokens := by
  have htrait : b.describe.tokens <:+: b.snapshotTrait.tokens :=
    Source.Implementation.infix_of_body List.mem_cons_self (List.infix_append _ _ _)
  exact infix_of_snapshot (List.infix_append_of_infix_right htrait)

/-- So does the fingerprint of the declaration, if it has one. -/
theorem fingerprintConstant_infix {n : Nat} (h : b.fingerprint = some n) :
    fingerprintConstant n <:+: b.tokens := by
  have hconstants : b.snapshotInherent.constants = fingerprintConstant n := by
    simp [snapshotInherent, h]
  have hinherent := b.snapshotInherent.constants_infix
  rw [hconstants] at hinherent
  exact infix_of_snapshot
    (List.infix_append_of_infix_left (List.infix_append_of_infix_right hinherent))

end Blueprint

namespace Schema

section Generated

variable {s : Schema} {m : ModelDeclaration} {fields : List ResolvedField}

theorem lookup_eq_some_of_mem {α : Type} {entries : List (String × α)}
    (hnodup : (entries.map Prod.fst).Nodup) {name : String} {a : α} (h : (name, a) ∈ entries) :
    entries.lookup name = some a := by
  induction entries with
  | nil => cases h
  | cons e entries ih =>
    rw [List.map_cons, List.nodup_cons] at hnodup
    rcases List.mem_cons.1 h with rfl | hrest
    · rw [List.lookup_cons_self]
    · have hne : (name == e.1) = false := by
        rw [beq_eq_false_iff_ne]
        rintro rfl
        exact hnodup.1 (List.mem_map.2 ⟨_, hrest, rfl⟩)
      rw [List.lookup_cons, hne]
      exact ih hnodup.2 hrest

/-- All records are resolved, each as it would be by itself. -/
theorem WellFormed.resolveModels (h : s.WellFormed) :
    ∃ models, s.resolveModels = .ok models ∧ models.map Prod.fst = s.models ∧
      ∀ r ∈ models, s.resolveModel r.1 = .ok r.2 := by
  obtain ⟨models, hmodels⟩ : ∃ models, s.resolveModels = .ok models := by
    refine exists_mapM_eq_ok fun m hm => ?_
    obtain ⟨fields, hfields⟩ := h.exists_resolveModel hm
    exact ⟨(m, fields), by rw [hfields]⟩
  have hall : List.Forall₂ (fun m r => r.1 = m ∧ s.resolveModel m = .ok r.2) s.models models := by
    refine (forall₂_of_mapM_eq_ok hmodels).imp fun m r hr => ?_
    split at hr
    · rename_i fields hfields
      cases hr
      exact ⟨rfl, hfields⟩
    · cases hr
  refine ⟨models, hmodels, ?_, fun r hr => ?_⟩
  · clear hmodels
    generalize s.models = declared at hall
    induction hall with
    | nil => rfl
    | cons hmr _ ih => rw [List.map_cons, hmr.1, ih]
  · obtain ⟨m, -, rfl, hm⟩ := mem_of_forall₂ hall hr
    exact hm

theorem NamesApart.nodup_models (h : s.NamesApart) : (s.models.map ModelDeclaration.name).Nodup := by
  have hdistinct := h.distinct
  rw [declaredNames, List.nodup_append] at hdistinct
  exact hdistinct.2.1

/-- The code of a well-formed schema comes from its resolved records. -/
theorem WellFormed.exists_generate (h : s.WellFormed) :
    ∃ models g, s.generate = .ok g ∧ models.map Prod.fst = s.models ∧
      (∀ r ∈ models, s.resolveModel r.1 = .ok r.2) ∧ g.files = s.filesOf models ∧
      g.fingerprints = models.map fun r => (r.1.name, ResolvedField.fingerprint r.2) := by
  obtain ⟨models, hmodels, hfirst, hall⟩ := h.resolveModels
  refine ⟨models, ⟨s.output, s.filesOf models,
    models.map fun r => (r.1.name, ResolvedField.fingerprint r.2)⟩, ?_, hfirst, hall, rfl, rfl⟩
  rw [Schema.generate, if_pos (faults_eq_nil_iff_wellFormed.2 h), hmodels]
  rfl

theorem mem_of_resolveModel {models : List (ModelDeclaration × List ResolvedField)}
    (hfirst : models.map Prod.fst = s.models) (hall : ∀ r ∈ models, s.resolveModel r.1 = .ok r.2)
    (hm : m ∈ s.models) (hfields : s.resolveModel m = .ok fields) : (m, fields) ∈ models := by
  rw [← hfirst] at hm
  obtain ⟨r, hr, rfl⟩ := List.mem_map.1 hm
  have heq := (hall r hr).symm.trans hfields
  cases heq
  exact hr

/-! The files of the generated code. -/

theorem modelFile_mem_filesOf {models : List (ModelDeclaration × List ResolvedField)}
    (hm : (m, fields) ∈ models) : ⟨modelFileName m, modelFile m fields⟩ ∈ s.filesOf models := by
  simp only [filesOf, List.mem_append, List.mem_map]
  exact .inl (.inl (.inl ⟨_, hm, rfl⟩))

theorem enumsFile_mem_filesOf (models : List (ModelDeclaration × List ResolvedField))
    {e : EnumDeclaration} (he : e ∈ s.enums) :
    ⟨"enums.rs", enumsFile s.enums⟩ ∈ s.filesOf models := by
  have hsome : s.enums.isEmpty = false := List.isEmpty_eq_false_iff.2 (List.ne_nil_of_mem he)
  simp [filesOf, hsome]

theorem keysFile_mem_filesOf (models : List (ModelDeclaration × List ResolvedField))
    {k : KeyDeclaration} (hk : k ∈ s.keys) :
    ⟨"keys.rs", keysFile s.keys⟩ ∈ s.filesOf models := by
  have hsome : s.keys.isEmpty = false := List.isEmpty_eq_false_iff.2 (List.ne_nil_of_mem hk)
  simp [filesOf, hsome]

theorem indexFile_mem_filesOf (s : Schema)
    (models : List (ModelDeclaration × List ResolvedField)) :
    ⟨"mod.rs", indexFile s.imports (!s.enums.isEmpty) (!s.keys.isEmpty) s.models⟩ ∈
      s.filesOf models := by
  simp [filesOf]

/-- What is generated for a record: its file, and its fingerprint. -/
theorem WellFormed.generate (h : s.WellFormed) (hm : m ∈ s.models)
    (hfields : s.resolveModel m = .ok fields) :
    ∃ g, s.generate = .ok g ∧ ⟨modelFileName m, modelFile m fields⟩ ∈ g.files ∧
      g.fingerprint? m.name = some (ResolvedField.fingerprint fields) := by
  obtain ⟨models, g, hg, hfirst, hall, hfiles, hfingerprints⟩ := h.exists_generate
  have hmem := mem_of_resolveModel hfirst hall hm hfields
  refine ⟨g, hg, hfiles ▸ modelFile_mem_filesOf hmem, ?_⟩
  have hnames : (g.fingerprints.map Prod.fst) = s.models.map ModelDeclaration.name := by
    rw [hfingerprints, ← hfirst, List.map_map, List.map_map]
    rfl
  refine lookup_eq_some_of_mem ?_ (hfingerprints ▸ List.mem_map.2 ⟨_, hmem, rfl⟩)
  rw [hnames]
  exact h.apart.nodup_models

end Generated

/-! ### Reading back -/

/-- What a blueprint has to keep of a record: its name, its key, and the other fields in their
order, each with what its type comes to. -/
structure Keeps (s : Schema) (m : ModelDeclaration) (b : Blueprint) : Prop where
  name : b.name = m.name
  key : ∃ k, m.keyFields = [k] ∧ b.key.name = k.name ∧
    s.resolve .key k.type = .ok (.identity (Token.compact b.key.type))
  fields : List.Forall₂ (fun (f : FieldDeclaration) (v : Blueprint.ValueField) => v.name = f.name ∧
      s.resolve .value f.type = .ok (.value v.shape (v.arguments.map Token.compact)))
    (m.fields.filter fun f => f.role == .value) b.fields

section Back

variable {s : Schema} {m : ModelDeclaration} {fields : List ResolvedField}

theorem keeps_blueprint (h : s.WellFormed) (hfields : s.resolveModel m = .ok fields)
    {k : FieldDeclaration} {identity : String} (hk : m.keyFields = [k])
    (hidentity : s.resolve .key k.type = .ok (.identity identity)) :
    s.Keeps m (blueprint m ⟨k.name, .key, .identity identity⟩ fields) := by
  have hnames {role : FieldRole} {t : TypeExpression} {r : ResolvedType} (hr : s.ComesTo role t r) :
      ∀ n ∈ r.names, Token.compact [.word n] = n :=
    fun n hn => compact_word (h.of_knows (hr.knows n hn)).1
  refine ⟨rfl, ⟨k, hk, rfl, ?_⟩, ?_⟩
  · obtain ⟨t, -, hcomes⟩ := resolve_eq_ok_iff.1 hidentity
    have hcompact :
        Token.compact (Tree.allTokens (ResolvedType.identity identity).trees) = identity :=
      hnames hcomes identity List.mem_cons_self
    simpa [blueprint, ResolvedField.keyField, hcompact] using hidentity
  · have hvalues := forall₂_filter (forall₂_of_resolveModel hfields) .value
    refine List.forall₂_map_right_iff.2 (hvalues.imp ?_)
    rintro f ⟨name, role, type⟩ ⟨hvalue, hname, hrole, t, ht, hcomes⟩
    rw [hvalue] at hcomes
    have hcompact : type.names.map (fun a => Token.compact [.word a]) = type.names :=
      List.map_congr_left (hnames hcomes) |>.trans (List.map_id _)
    have hvalued : type = .value type.shape type.names := by
      cases hcomes <;> rfl
    have hresolve : s.resolve .value f.type = .ok (.value type.shape type.names) :=
      resolve_eq_ok_iff.2 ⟨t, ht, hvalued ▸ hcomes⟩
    refine ⟨hname, ?_⟩
    simpa [ResolvedField.valueField, Function.comp_def, hcompact] using hresolve

end Back

/-- Reading a generated struct back, where it can be read, gives the record that it was generated
from, and the fingerprint is the same wherever it is kept. -/
theorem expand_structText (s : Schema) (h : s.faults = []) (m : ModelDeclaration)
    (hm : m ∈ s.models) :
    ∃ fields g, s.resolveModel m = .ok fields ∧ s.generate = .ok g ∧
      ⟨modelFileName m, modelFile m fields⟩ ∈ g.files ∧
      g.fingerprint? m.name = some (ResolvedField.fingerprint fields) ∧
      ∀ ts, Blueprint.expand (attributeText fields) (structText m fields) = .ok ts →
        ∃ b, Blueprint.ofSource (attributeText fields) (structText m fields) = .ok b ∧
          ts = b.tokens ∧ s.Keeps m b ∧
          b.describe.tokens <:+: ts ∧ b.describe.fingerprint = ResolvedField.fingerprint fields ∧
          b.fingerprint = some (ResolvedField.fingerprint fields) ∧
          Blueprint.fingerprintConstant (ResolvedField.fingerprint fields) <:+: ts := by
  have hwell := faults_eq_nil_iff_wellFormed.1 h
  obtain ⟨fields, hfields⟩ := hwell.exists_resolveModel hm
  obtain ⟨g, hg, hfile, hfingerprint⟩ := hwell.generate hm hfields
  refine ⟨fields, g, hfields, hg, hfile, hfingerprint, fun ts hts => ?_⟩
  obtain ⟨k, identity, hk, hidentity, hkey⟩ := hwell.exists_key hm hfields
  have hresolved := hwell.resolved hm hfields
  have hname : IsName m.name := by
    have hdeclared : m.name ∈ s.declaredNames :=
      List.mem_append_right _ (List.mem_map_of_mem hm)
    exact (hwell.spelled _ hdeclared).isName
  obtain ⟨b, hsource, rfl⟩ := Blueprint.expand_eq_ok_iff.1 hts
  obtain ⟨-, -, rfl⟩ := (ofSource_eq_ok_iff hname (fun f hf => (hresolved f hf).1)
    (fun f hf => (hresolved f hf).2) hkey).1 hsource
  exact ⟨_, hsource, rfl, keeps_blueprint hwell hfields hk hidentity, Blueprint.describe_infix _,
    fingerprint_describe hresolved hkey, rfl, Blueprint.fingerprintConstant_infix rfl⟩

/-- The struct of a lamp can be read, and has its slot for the key. -/
theorem expand_structText_of_lamps :
    ∃ m ∈ lamps.models, ∃ fields ts b, lamps.resolveModel m = .ok fields ∧
      Blueprint.expand (attributeText fields) (structText m fields) = .ok ts ∧
      Blueprint.ofSource (attributeText fields) (structText m fields) = .ok b ∧ ts = b.tokens ∧
      lamps.Keeps m b ∧ b.describe.fingerprint = ResolvedField.fingerprint fields := by
  let lamp : ModelDeclaration := ⟨"Lamp", [⟨"key", "Slot", .key⟩, ⟨"shades", "Set<Shade>", .value⟩]⟩
  have hfields : lamps.resolveModel lamp =
      .ok [⟨"key", .key, .identity "Slot"⟩, ⟨"shades", .value, .value .keySet ["Shade"]⟩] := by
    simp only [lamp, resolveModel, List.mapM_cons, List.mapM_nil, resolve_slot, resolve_shades]
    rfl
  have hlamp : lamp ∈ lamps.models := List.mem_cons_self
  have hresolved := (faults_eq_nil_iff_wellFormed.1 faults_lamps).resolved hlamp hfields
  have hsource := (ofSource_eq_ok_iff (m := lamp) (by decide) (fun f hf => (hresolved f hf).1)
    (fun f hf => (hresolved f hf).2) rfl).2
    ⟨⟨by decide, by simp [NamesField, Source.isIdentifier, keywords]⟩, by decide, rfl⟩
  obtain ⟨fields, g, hfields', -, -, -, hback⟩ := expand_structText lamps faults_lamps lamp hlamp
  obtain rfl := Except.ok.inj (hfields.symm.trans hfields')
  have hexpand := Blueprint.expand_eq_ok_iff.2 ⟨_, hsource, rfl⟩
  obtain ⟨b, hb, htokens, hkeeps, -, hfingerprint, -⟩ := hback _ hexpand
  exact ⟨lamp, hlamp, _, _, b, hfields, hexpand, hb, htokens, hkeeps, hfingerprint⟩

end Schema

end VersionedRecords
