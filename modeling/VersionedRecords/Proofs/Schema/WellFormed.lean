import Mathlib.Data.List.Forall2
import VersionedRecords.Proofs.Schema.Spelling
import VersionedRecords.Schema.Check

/-!
Well-formed schemas.

What a schema has to be like is said here without the checks: which names it may declare, what can
identify something, which types the fields may have.  A schema has no faults exactly if it is like
that, and then the types of all of its records can be resolved.

A name is looked up in one table for all classes of types, where later declarations hide earlier
ones.  In a schema without faults no name is declared twice and none is that of a primitive type, so
nothing is hidden and looking up a name says what it was declared as.
-/

namespace VersionedRecords

namespace Schema

/-! ### What a schema has to be like -/

/-- A capital, then letters and digits. -/
def PascalCase (name : String) : Prop :=
  ∃ c rest, name.toList = c :: rest ∧ c.isUpper = true ∧ ∀ d ∈ rest, d.isAlphanum = true

/-- A small letter or an underscore, then small letters, digits and underscores. -/
def SnakeCase (name : String) : Prop :=
  ∃ c rest, name.toList = c :: rest ∧ (c.isLower = true ∨ c = '_') ∧
    ∀ d ∈ rest, d.isLower = true ∨ d.isDigit = true ∨ d = '_'

/-- The names that can be referred to. -/
def Knows (s : Schema) (name : String) : Prop := name ∈ primitives ∨ name ∈ s.declaredNames

/-- The names of the types that can identify something. -/
inductive Identifies (s : Schema) : String → Prop
  | primitive {name : String} (hname : name ∈ primitives) (hordered : name ≠ "f32" ∧ name ≠ "f64") :
    Identifies s name
  | enumeration {e : EnumDeclaration} (he : e ∈ s.enums) : Identifies s e.name
  | key {k : KeyDeclaration} (hk : k ∈ s.keys) : Identifies s k.name

/-- The types that the fields of records may have. -/
inductive Admits (s : Schema) : FieldRole → TypeExpression → Prop
  | key {name : String} (hname : s.Identifies name) : Admits s .key (.name name)
  | name {name : String} (hname : s.Knows name) : Admits s .value (.name name)
  | set {element : String} (helement : s.Identifies element) : Admits s .value (.set (.name element))
  | map {key value : String} (hkey : s.Identifies key) (hvalue : s.Knows value) :
    Admits s .value (.map (.name key) (.name value))

end Schema

structure EnumDeclaration.WellFormed (e : EnumDeclaration) : Prop where
  inhabited : e.variants ≠ []
  spelled : ∀ v ∈ e.variants, Schema.PascalCase v
  distinct : e.variants.Nodup
  default_mem : ∀ d, e.default = some d → d ∈ e.variants

/-- The names of some fields are spelled as they should be and occur once each. -/
structure FieldDeclaration.WellNamed (fields : List FieldDeclaration) : Prop where
  spelled : ∀ f ∈ fields, Schema.SnakeCase f.name
  distinct : (fields.map name).Nodup

structure KeyDeclaration.WellFormed (s : Schema) (k : KeyDeclaration) : Prop where
  inhabited : k.fields ≠ []
  named : FieldDeclaration.WellNamed k.fields
  plain : ∀ f ∈ k.fields, f.role ≠ .key
  typed : ∀ f ∈ k.fields, s.Identifies (String.ofList (Text.trim f.type.toList))

structure ModelDeclaration.WellFormed (s : Schema) (m : ModelDeclaration) : Prop where
  keyed : ∃ f, m.keyFields = [f]
  named : FieldDeclaration.WellNamed m.fields
  /-- A reserved name is used by nothing but a key field of the name `key`. -/
  unreserved : ∀ f ∈ m.fields, f.name ∈ Schema.reservedFieldNames → f.role = .key ∧ f.name = "key"
  typed : ∀ f ∈ m.fields, ∃ t, TypeExpression.parse? f.type.toList = some t ∧ s.Admits f.role t

namespace Schema

/-- Every name is declared once, and none is that of a primitive type. -/
structure NamesApart (s : Schema) : Prop where
  distinct : s.declaredNames.Nodup
  new : ∀ name ∈ s.declaredNames, name ∉ primitives

structure WellFormed (s : Schema) : Prop where
  placed : s.output ≠ ""
  inhabited : s.models ≠ []
  spelled : ∀ name ∈ s.declaredNames, PascalCase name
  apart : s.NamesApart
  imports : ∀ i ∈ s.imports, ¬ ∀ c ∈ i.path.toList, Text.isBlank c = true
  enums : ∀ e ∈ s.enums, e.WellFormed
  keys : ∀ k ∈ s.keys, k.WellFormed s
  models : ∀ m ∈ s.models, m.WellFormed s

/-! ### Names -/

theorem isPascalCase_iff {name : String} : isPascalCase name = true ↔ PascalCase name := by
  unfold isPascalCase PascalCase
  cases name.toList with
  | nil => simp
  | cons c rest => simp [and_assoc]

theorem isSnakeCase_iff {name : String} : isSnakeCase name = true ↔ SnakeCase name := by
  unfold isSnakeCase SnakeCase
  cases name.toList with
  | nil => simp
  | cons c rest => simp [or_assoc, and_assoc]

/-- Some names are new, after others that have been seen. -/
def Fresh (seen names : List String) : Prop := names.Nodup ∧ ∀ name ∈ names, name ∉ seen

theorem fresh_nil (seen : List String) : Fresh seen [] := by simp [Fresh]

theorem fresh_cons {seen names : List String} {name : String} :
    Fresh seen (name :: names) ↔ name ∉ seen ∧ Fresh (name :: seen) names := by
  rw [Fresh, Fresh, List.nodup_cons, List.forall_mem_cons]
  simp only [List.mem_cons, not_or]
  constructor
  · rintro ⟨⟨hname, hnodup⟩, hseen, hrest⟩
    exact ⟨hseen, hnodup, fun n hn => ⟨fun h => hname (h ▸ hn), hrest n hn⟩⟩
  · rintro ⟨hseen, hnodup, hrest⟩
    exact ⟨⟨fun hn => (hrest _ hn).1 rfl, hnodup⟩, hseen, fun n hn => (hrest n hn).2⟩

theorem fresh_from_nil {names : List String} : Fresh [] names ↔ names.Nodup := by simp [Fresh]

/-! ### The table of names -/

variable {s : Schema} {name : String}

/-- The names in a class of types. -/
def namesOf (s : Schema) : TypeClass → List String
  | .primitive => primitives
  | .enumeration => s.enums.map EnumDeclaration.name
  | .key => s.keys.map KeyDeclaration.name
  | .imported => s.imports.map ImportDeclaration.name
  | .model => s.models.map ModelDeclaration.name

theorem knows_iff : s.Knows name ↔ ∃ c, name ∈ s.namesOf c := by
  constructor
  · rintro (h | h)
    · exact ⟨.primitive, h⟩
    · simp only [declaredNames, List.mem_append] at h
      rcases h with ((h | h) | h) | h
      · exact ⟨.imported, h⟩
      · exact ⟨.enumeration, h⟩
      · exact ⟨.key, h⟩
      · exact ⟨.model, h⟩
  · rintro ⟨c, h⟩
    cases c with
    | primitive => exact .inl h
    | enumeration => exact .inr (by simp_all [declaredNames, namesOf])
    | key => exact .inr (by simp_all [declaredNames, namesOf])
    | imported => exact .inr (by simp_all [declaredNames, namesOf])
    | model => exact .inr (by simp_all [declaredNames, namesOf])

theorem any_name_eq {α : Type} (l : List α) (f : α → String) (name : String) :
    (l.any fun a => f a == name) = decide (name ∈ l.map f) := by
  rw [Bool.eq_iff_iff]
  simp

/-- The classes in the order in which they hide each other. -/
def lookupOrder : List TypeClass := [.model, .key, .enumeration, .imported, .primitive]

theorem mem_lookupOrder (c : TypeClass) : c ∈ lookupOrder := by
  cases c <;> decide

/-- The table goes through the classes one after the other. -/
theorem classOf?_eq : s.classOf? name = lookupOrder.find? fun c => name ∈ s.namesOf c := by
  simp only [classOf?, any_name_eq, lookupOrder, List.find?_cons, List.find?_nil, namesOf]
  grind

theorem mem_namesOf_of_classOf? {c : TypeClass} (h : s.classOf? name = some c) :
    name ∈ s.namesOf c := by
  rw [classOf?_eq] at h
  have hmem := List.find?_some h
  exact of_decide_eq_true hmem

theorem classOf?_eq_none_iff : s.classOf? name = none ↔ ¬ s.Knows name := by
  rw [classOf?_eq, List.find?_eq_none, knows_iff]
  simp [mem_lookupOrder]

theorem exists_classOf? (h : s.Knows name) : ∃ c, s.classOf? name = some c := by
  rw [← Option.ne_none_iff_exists']
  exact fun hnone => classOf?_eq_none_iff.1 hnone h

/-- No name is in two classes. -/
theorem NamesApart.unique (h : s.NamesApart) {c c' : TypeClass} (hc : name ∈ s.namesOf c)
    (hc' : name ∈ s.namesOf c') : c = c' := by
  have hdistinct := h.distinct
  have hnew := h.new name
  simp only [declaredNames, List.nodup_append, List.mem_append] at hdistinct hnew
  cases c <;> cases c' <;> simp only [namesOf] at hc hc' <;> grind

/-- In a schema whose names lie apart, looking up a name says what it was declared as. -/
theorem NamesApart.classOf?_eq_some_iff (h : s.NamesApart) {c : TypeClass} :
    s.classOf? name = some c ↔ name ∈ s.namesOf c := by
  refine ⟨mem_namesOf_of_classOf?, fun hc => ?_⟩
  obtain ⟨c', hc'⟩ := exists_classOf? (knows_iff.2 ⟨c, hc⟩)
  rw [hc', h.unique hc (mem_namesOf_of_classOf? hc')]

/-! ### What identifies -/

theorem mem_unorderedPrimitives : name ∈ unorderedPrimitives ↔ name = "f32" ∨ name = "f64" := by
  simp [unorderedPrimitives]

theorem unorderedPrimitives_subset (h : name ∈ unorderedPrimitives) : name ∈ primitives := by
  rcases mem_unorderedPrimitives.1 h with rfl | rfl <;> decide

/-- Checking an identity goes by the class of the name. -/
theorem checkIdentity_eq_ok_iff' :
    s.checkIdentity name = .ok () ↔
      ∃ c, s.classOf? name = some c ∧ c.isScalar = true ∧ name ∉ unorderedPrimitives := by
  unfold checkIdentity
  cases s.classOf? name with
  | none => simp
  | some c =>
    by_cases hunordered : name ∈ unorderedPrimitives
    · simp [hunordered]
    · cases hscalar : c.isScalar <;> simp [hunordered, hscalar]

theorem NamesApart.checkIdentity_eq_ok_iff (h : s.NamesApart) :
    s.checkIdentity name = .ok () ↔ s.Identifies name := by
  rw [checkIdentity_eq_ok_iff']
  constructor
  · rintro ⟨c, hc, hscalar, hordered⟩
    have hmem := mem_namesOf_of_classOf? hc
    cases c with
    | primitive =>
      rw [mem_unorderedPrimitives, not_or] at hordered
      exact .primitive hmem hordered
    | enumeration =>
      obtain ⟨e, he, rfl⟩ := List.mem_map.1 hmem
      exact .enumeration he
    | key =>
      obtain ⟨k, hk, rfl⟩ := List.mem_map.1 hmem
      exact .key hk
    | imported => cases hscalar
    | model => cases hscalar
  · -- a declared name is no primitive, let alone an unordered one
    have hordered {c : TypeClass} (hc : name ∈ s.namesOf c) (hne : c ≠ .primitive) :
        name ∉ unorderedPrimitives := by
      intro hmem
      have hprimitive : name ∈ s.namesOf .primitive := unorderedPrimitives_subset hmem
      exact hne (h.unique hc hprimitive)
    rintro (⟨hprimitive, hfloat⟩ | ⟨he⟩ | ⟨hk⟩)
    · refine ⟨.primitive, h.classOf?_eq_some_iff.2 hprimitive, rfl, ?_⟩
      rw [mem_unorderedPrimitives, not_or]
      exact hfloat
    · have hmem : _ ∈ s.namesOf .enumeration := List.mem_map_of_mem he
      exact ⟨.enumeration, h.classOf?_eq_some_iff.2 hmem, rfl, hordered hmem (by simp)⟩
    · have hmem : _ ∈ s.namesOf .key := List.mem_map_of_mem hk
      exact ⟨.key, h.classOf?_eq_some_iff.2 hmem, rfl, hordered hmem (by simp)⟩

end Schema

/-! ### Resolving -/

/-- The kind of a field whose type is a name of the class. -/
def TypeClass.shape : TypeClass → FieldShape
  | imported => .attached
  | model => .nested
  | primitive | enumeration | key => .scalar

/-- The kind of a map whose values have a name of the class for their type. -/
def TypeClass.mapShape : TypeClass → FieldShape
  | model => .modelMap
  | primitive | enumeration | key | imported => .valueMap

namespace Schema

variable {s : Schema} {name : String}

theorem identityIn_eq_ok_iff {place : IdentityPlace} {t : TypeExpression} :
    s.identityIn place t = .ok name ↔ t = .name name ∧ s.checkIdentity name = .ok () := by
  cases t with
  | name n =>
    simp only [identityIn, TypeExpression.name?, TypeExpression.name.injEq]
    cases hcheck : s.checkIdentity n with
    | ok => constructor <;> grind
    | error => constructor <;> grind
  | set => simp [identityIn, TypeExpression.name?]
  | map => simp [identityIn, TypeExpression.name?]

/-- What the type of a field comes to.  A plain name and the value of a map go by the class of the
name; what has to identify something is only checked. -/
inductive ComesTo (s : Schema) : FieldRole → TypeExpression → ResolvedType → Prop
  | key {name : String} (hname : s.checkIdentity name = .ok ()) :
    ComesTo s .key (.name name) (.identity name)
  | name {name : String} {c : TypeClass} (hname : s.classOf? name = some c) :
    ComesTo s .value (.name name) (.value c.shape [name])
  | set {element : String} (helement : s.checkIdentity element = .ok ()) :
    ComesTo s .value (.set (.name element)) (.value .keySet [element])
  | map {key value : String} {c : TypeClass} (hkey : s.checkIdentity key = .ok ())
    (hvalue : s.classOf? value = some c) :
    ComesTo s .value (.map (.name key) (.name value)) (.value c.mapShape [key, value])

theorem bind_eq_ok_iff {ε α β : Type} {x : Except ε α} {f : α → Except ε β} {b : β} :
    x >>= f = .ok b ↔ ∃ a, x = .ok a ∧ f a = .ok b := by
  cases x <;> simp [bind, Except.bind]

theorem resolveKey_eq_ok_iff {text : String} {t : TypeExpression} {r : ResolvedType} :
    s.resolveKey text t = .ok r ↔ s.ComesTo .key t r := by
  constructor
  · intro h
    cases t with
    | name n =>
      simp only [resolveKey, TypeExpression.name?] at h
      split at h
      · rename_i hcheck
        cases h
        exact .key hcheck
      · cases h
    | set => cases h
    | map => cases h
  · rintro (hname | _ | _ | _)
    simp only [resolveKey, TypeExpression.name?, hname]

theorem resolveValue_eq_ok_iff {t : TypeExpression} {r : ResolvedType} :
    s.resolveValue t = .ok r ↔ s.ComesTo .value t r := by
  constructor
  · intro h
    cases t with
    | name n =>
      simp only [resolveValue] at h
      cases hclass : s.classOf? n with
      | none => simp [hclass] at h
      | some c =>
        have hname := ComesTo.name hclass
        cases c <;> (simp only [hclass] at h; cases h; exact hname)
    | set element =>
      obtain ⟨e, he, hr⟩ := bind_eq_ok_iff.1 h
      obtain ⟨rfl, hcheck⟩ := identityIn_eq_ok_iff.1 he
      cases hr
      exact .set hcheck
    | map key value =>
      obtain ⟨k, hk, hrest⟩ := bind_eq_ok_iff.1 h
      obtain ⟨rfl, hcheck⟩ := identityIn_eq_ok_iff.1 hk
      cases value with
      | name v =>
        simp only [TypeExpression.name?] at hrest
        cases hclass : s.classOf? v with
        | none => simp [hclass] at hrest
        | some c =>
          have hvalue := ComesTo.map hcheck hclass
          cases c <;> (simp only [hclass] at hrest; cases hrest; exact hvalue)
      | set => cases hrest
      | map => cases hrest
  · rintro (_ | hname | helement | ⟨hkey, hvalue⟩)
    · rename_i n c
      cases c <;> simp only [resolveValue, hname] <;> rfl
    · have he : s.identityIn .setElement _ = .ok _ := identityIn_eq_ok_iff.2 ⟨rfl, helement⟩
      rw [resolveValue, he]
      rfl
    · rename_i k v c
      have hk : s.identityIn .mapKey _ = .ok _ := identityIn_eq_ok_iff.2 ⟨rfl, hkey⟩
      cases c <;> simp only [resolveValue, hk, TypeExpression.name?, hvalue, bind, Except.bind] <;> rfl

theorem resolve_eq_ok_iff {role : FieldRole} {text : String} {r : ResolvedType} :
    s.resolve role text = .ok r ↔
      ∃ t, TypeExpression.parse? text.toList = some t ∧ s.ComesTo role t r := by
  unfold resolve
  cases TypeExpression.parse? text.toList with
  | none => simp
  | some t =>
    cases role with
    | key => simp [resolveKey_eq_ok_iff]
    | value => simp [resolveValue_eq_ok_iff]

/-- A type comes to something exactly if it is one that a field may have. -/
theorem NamesApart.comesTo_iff (h : s.NamesApart) {role : FieldRole} {t : TypeExpression} :
    (∃ r, s.ComesTo role t r) ↔ s.Admits role t := by
  constructor
  · rintro ⟨r, hname | hname | helement | ⟨hkey, hvalue⟩⟩
    · exact .key (h.checkIdentity_eq_ok_iff.1 hname)
    · exact .name (knows_iff.2 ⟨_, mem_namesOf_of_classOf? hname⟩)
    · exact .set (h.checkIdentity_eq_ok_iff.1 helement)
    · exact .map (h.checkIdentity_eq_ok_iff.1 hkey) (knows_iff.2 ⟨_, mem_namesOf_of_classOf? hvalue⟩)
  · rintro (hname | hname | helement | ⟨hkey, hvalue⟩)
    · exact ⟨_, .key (h.checkIdentity_eq_ok_iff.2 hname)⟩
    · obtain ⟨c, hc⟩ := exists_classOf? hname
      exact ⟨_, .name hc⟩
    · exact ⟨_, .set (h.checkIdentity_eq_ok_iff.2 helement)⟩
    · obtain ⟨c, hc⟩ := exists_classOf? hvalue
      exact ⟨_, .map (h.checkIdentity_eq_ok_iff.2 hkey) hc⟩

/-- What one field of a record comes to. -/
def FieldComesTo (s : Schema) (f : FieldDeclaration) (r : ResolvedField) : Prop :=
  r.name = f.name ∧ r.role = f.role ∧
    ∃ t, TypeExpression.parse? f.type.toList = some t ∧ s.ComesTo f.role t r.type

theorem forall₂_of_mapM_eq_ok {ε α β : Type} {f : α → Except ε β} {as : List α} {bs : List β}
    (h : as.mapM f = .ok bs) : List.Forall₂ (fun a b => f a = .ok b) as bs := by
  induction as generalizing bs with
  | nil =>
    cases h
    exact .nil
  | cons a as ih =>
    rw [List.mapM_cons] at h
    obtain ⟨b, hb, hrest⟩ := bind_eq_ok_iff.1 h
    obtain ⟨bs', hbs', heq⟩ := bind_eq_ok_iff.1 hrest
    cases heq
    exact .cons hb (ih hbs')

theorem exists_mapM_eq_ok {ε α β : Type} {f : α → Except ε β} {as : List α}
    (h : ∀ a ∈ as, ∃ b, f a = .ok b) : ∃ bs, as.mapM f = .ok bs := by
  induction as with
  | nil => exact ⟨[], rfl⟩
  | cons a as ih =>
    obtain ⟨b, hb⟩ := h a List.mem_cons_self
    obtain ⟨bs, hbs⟩ := ih fun a' ha' => h a' (List.mem_cons_of_mem _ ha')
    exact ⟨b :: bs, by rw [List.mapM_cons, hb, hbs]; rfl⟩

/-- The fields of a record are resolved one by one. -/
theorem forall₂_of_resolveModel {m : ModelDeclaration} {fields : List ResolvedField}
    (h : s.resolveModel m = .ok fields) : List.Forall₂ s.FieldComesTo m.fields fields := by
  refine (forall₂_of_mapM_eq_ok h).imp fun f r hr => ?_
  cases hresolve : s.resolve f.role f.type with
  | ok type =>
    rw [hresolve] at hr
    cases hr
    exact ⟨rfl, rfl, resolve_eq_ok_iff.1 hresolve⟩
  | error cause =>
    rw [hresolve] at hr
    cases hr

theorem exists_resolveModel {m : ModelDeclaration}
    (h : ∀ f ∈ m.fields, ∃ r, s.resolve f.role f.type = .ok r) :
    ∃ fields, s.resolveModel m = .ok fields := by
  refine exists_mapM_eq_ok fun f hf => ?_
  obtain ⟨r, hr⟩ := h f hf
  exact ⟨⟨f.name, f.role, r⟩, by rw [hr]⟩

/-! ### Faults -/

open SchemaFault (when)

theorem when_eq_nil {p : Prop} [Decidable p] {f : SchemaFault} : when p f = [] ↔ ¬ p := by
  simp [when]

theorem typeNameFaults_eq_nil {seen names : List String} :
    typeNameFaults seen names = [] ↔
      (∀ n ∈ names, PascalCase n ∧ n ∉ primitives) ∧ Fresh seen names := by
  induction names generalizing seen with
  | nil => simp [typeNameFaults, fresh_nil]
  | cons n rest ih =>
    simp only [typeNameFaults, List.append_eq_nil_iff, when_eq_nil, ih, fresh_cons,
      List.forall_mem_cons, isPascalCase_iff]
    grind

theorem importFaults_eq_nil {i : ImportDeclaration} :
    importFaults i = [] ↔ ¬ ∀ c ∈ i.path.toList, Text.isBlank c = true := by
  rw [importFaults, when_eq_nil, Text.isBlankText, List.all_eq_true]

theorem variantFaults_eq_nil {type : String} {seen variants : List String} :
    variantFaults type seen variants = [] ↔ (∀ v ∈ variants, PascalCase v) ∧ Fresh seen variants := by
  induction variants generalizing seen with
  | nil => simp [variantFaults, fresh_nil]
  | cons v rest ih =>
    simp only [variantFaults, List.append_eq_nil_iff, when_eq_nil, ih, fresh_cons,
      List.forall_mem_cons, isPascalCase_iff]
    grind

theorem enumFaults_eq_nil {e : EnumDeclaration} : enumFaults e = [] ↔ e.WellFormed := by
  obtain ⟨name, variants, default⟩ := e
  rw [enumFaults, List.append_eq_nil_iff, List.append_eq_nil_iff, when_eq_nil, variantFaults_eq_nil,
    fresh_from_nil]
  constructor
  · rintro ⟨⟨hinhabited, hspelled, hdistinct⟩, hdefault⟩
    refine ⟨hinhabited, hspelled, hdistinct, ?_⟩
    rintro d rfl
    exact Decidable.not_not.1 (when_eq_nil.1 hdefault)
  · rintro ⟨hinhabited, hspelled, hdistinct, hmem⟩
    refine ⟨⟨hinhabited, hspelled, hdistinct⟩, ?_⟩
    cases default with
    | none => rfl
    | some d => exact when_eq_nil.2 fun hnot => hnot (hmem d rfl)

theorem fieldNameFaults_eq_nil {type : String} {reserve : Bool} {seen : List String}
    {fields : List FieldDeclaration} :
    fieldNameFaults type reserve seen fields = [] ↔
      (∀ f ∈ fields, SnakeCase f.name ∧ (reserve = true → isReserved f = false)) ∧
        Fresh seen (fields.map FieldDeclaration.name) := by
  induction fields generalizing seen with
  | nil => simp [fieldNameFaults, fresh_nil]
  | cons f rest ih =>
    simp only [fieldNameFaults, List.append_eq_nil_iff, when_eq_nil, ih, List.map_cons, fresh_cons,
      List.forall_mem_cons, isSnakeCase_iff]
    grind

theorem isReserved_eq_false_iff {f : FieldDeclaration} :
    isReserved f = false ↔ (f.name ∈ reservedFieldNames → f.role = .key ∧ f.name = "key") := by
  unfold isReserved
  by_cases hkey : f.role = .key <;> by_cases hname : f.name = "key" <;> simp [hkey, hname]

theorem NamesApart.partFaults_eq_nil (h : s.NamesApart) {type : String} {f : FieldDeclaration} :
    s.partFaults type f = [] ↔
      s.Identifies (String.ofList (Text.trim f.type.toList)) ∧ f.role ≠ .key := by
  rw [← h.checkIdentity_eq_ok_iff, partFaults, List.append_eq_nil_iff, when_eq_nil]
  cases s.checkIdentity (String.ofList (Text.trim f.type.toList)) <;> simp

theorem NamesApart.keyFaults_eq_nil (h : s.NamesApart) {k : KeyDeclaration} :
    s.keyFaults k = [] ↔ k.WellFormed s := by
  rw [keyFaults, List.append_eq_nil_iff, List.append_eq_nil_iff, when_eq_nil, fieldNameFaults_eq_nil,
    fresh_from_nil, List.flatMap_eq_nil_iff]
  simp only [h.partFaults_eq_nil]
  constructor
  · rintro ⟨⟨hinhabited, hspelled, hdistinct⟩, hparts⟩
    exact ⟨hinhabited, ⟨fun f hf => (hspelled f hf).1, hdistinct⟩, fun f hf => (hparts f hf).2,
      fun f hf => (hparts f hf).1⟩
  · rintro ⟨hinhabited, ⟨hspelled, hdistinct⟩, hplain, htyped⟩
    exact ⟨⟨hinhabited, fun f hf => ⟨hspelled f hf, by simp⟩, hdistinct⟩,
      fun f hf => ⟨htyped f hf, hplain f hf⟩⟩

theorem fieldTypeFaults_eq_nil_iff_resolve {type : String} {f : FieldDeclaration} :
    s.fieldTypeFaults type f = [] ↔ ∃ r, s.resolve f.role f.type = .ok r := by
  rw [fieldTypeFaults]
  cases s.resolve f.role f.type <;> simp

theorem NamesApart.fieldTypeFaults_eq_nil (h : s.NamesApart) {type : String}
    {f : FieldDeclaration} :
    s.fieldTypeFaults type f = [] ↔
      ∃ t, TypeExpression.parse? f.type.toList = some t ∧ s.Admits f.role t := by
  simp only [fieldTypeFaults_eq_nil_iff_resolve, resolve_eq_ok_iff, ← h.comesTo_iff]
  grind

theorem NamesApart.modelFaults_eq_nil (h : s.NamesApart) {m : ModelDeclaration} :
    s.modelFaults m = [] ↔ m.WellFormed s := by
  rw [modelFaults, List.append_eq_nil_iff, List.append_eq_nil_iff, when_eq_nil, fieldNameFaults_eq_nil,
    fresh_from_nil, List.flatMap_eq_nil_iff, ne_eq, Decidable.not_not, List.length_eq_one_iff]
  simp only [h.fieldTypeFaults_eq_nil, isReserved_eq_false_iff, true_implies]
  constructor
  · rintro ⟨⟨⟨hspelled, hdistinct⟩, hkeyed⟩, htyped⟩
    exact ⟨hkeyed, ⟨fun f hf => (hspelled f hf).1, hdistinct⟩, fun f hf => (hspelled f hf).2, htyped⟩
  · rintro ⟨hkeyed, ⟨hspelled, hdistinct⟩, hunreserved, htyped⟩
    exact ⟨⟨⟨fun f hf => ⟨hspelled f hf, hunreserved f hf⟩, hdistinct⟩, hkeyed⟩, htyped⟩

theorem faults_eq_nil_iff_wellFormed : s.faults = [] ↔ s.WellFormed := by
  have hnames : typeNameFaults [] s.declaredNames = [] ↔
      (∀ n ∈ s.declaredNames, PascalCase n) ∧ s.NamesApart := by
    rw [typeNameFaults_eq_nil, fresh_from_nil]
    constructor
    · rintro ⟨hall, hdistinct⟩
      exact ⟨fun n hn => (hall n hn).1, hdistinct, fun n hn => (hall n hn).2⟩
    · rintro ⟨hspelled, hapart⟩
      exact ⟨fun n hn => ⟨hspelled n hn, hapart.new n hn⟩, hapart.distinct⟩
  simp only [faults, wholeFaults, List.append_eq_nil_iff, when_eq_nil, hnames, List.flatMap_eq_nil_iff,
    importFaults_eq_nil, enumFaults_eq_nil]
  constructor
  · rintro ⟨⟨⟨⟨⟨⟨hplaced, hinhabited⟩, hspelled, hapart⟩, himports⟩, henums⟩, hkeys⟩, hmodels⟩
    exact ⟨hplaced, hinhabited, hspelled, hapart, himports, henums,
      fun k hk => hapart.keyFaults_eq_nil.1 (hkeys k hk),
      fun m hm => hapart.modelFaults_eq_nil.1 (hmodels m hm)⟩
  · intro h
    exact ⟨⟨⟨⟨⟨⟨h.placed, h.inhabited⟩, h.spelled, h.apart⟩, h.imports⟩, h.enums⟩,
      fun k hk => h.apart.keyFaults_eq_nil.2 (h.keys k hk)⟩,
      fun m hm => h.apart.modelFaults_eq_nil.2 (h.models m hm)⟩

/-- A schema has no faults if the types of the fields of its records can be resolved and there are
no other faults, which can be computed. -/
theorem faults_eq_nil_of_resolve
    (hothers : s.wholeFaults ++ typeNameFaults [] s.declaredNames ++ s.imports.flatMap importFaults
      ++ s.enums.flatMap enumFaults ++ s.keys.flatMap s.keyFaults = [])
    (hmodels : ∀ m ∈ s.models,
      fieldNameFaults m.name true [] m.fields = [] ∧ m.keyFields.length = 1)
    (htypes : ∀ m ∈ s.models, ∀ f ∈ m.fields, ∃ r, s.resolve f.role f.type = .ok r) :
    s.faults = [] := by
  have hall : s.models.flatMap s.modelFaults = [] := by
    rw [List.flatMap_eq_nil_iff]
    intro m hm
    obtain ⟨hnamed, hkeyed⟩ := hmodels m hm
    have htyped : m.fields.flatMap (s.fieldTypeFaults m.name) = [] :=
      List.flatMap_eq_nil_iff.2 fun f hf => fieldTypeFaults_eq_nil_iff_resolve.2 (htypes m hm f hf)
    rw [modelFaults, hnamed, when_eq_nil.2 (not_not.2 hkeyed), htyped]
    rfl
  rw [faults, hothers, hall]
  rfl

/-- The types of all the fields of a well-formed schema can be resolved. -/
theorem WellFormed.exists_resolveModel (h : s.WellFormed) {m : ModelDeclaration}
    (hm : m ∈ s.models) : ∃ fields, s.resolveModel m = .ok fields := by
  refine Schema.exists_resolveModel fun f hf => ?_
  obtain ⟨t, ht, hadmits⟩ := (h.models m hm).typed f hf
  obtain ⟨r, hr⟩ := h.apart.comesTo_iff.2 hadmits
  exact ⟨r, resolve_eq_ok_iff.2 ⟨t, ht, hr⟩⟩

/-- A schema has no faults exactly if it is well-formed, and then the types of all of its records
can be resolved. -/
theorem accepted_iff_wellFormed (s : Schema) :
    (s.faults = [] ↔ s.WellFormed) ∧
      (s.faults = [] → ∀ m ∈ s.models, ∃ fields, s.resolveModel m = .ok fields) :=
  ⟨faults_eq_nil_iff_wellFormed,
    fun h _ hm => (faults_eq_nil_iff_wellFormed.1 h).exists_resolveModel hm⟩

/-- A schema with a record whose members are kept by a set of variants. -/
def lamps : Schema where
  output := "src/generated"
  imports := []
  enums := [⟨"Shade", ["Plain", "Bold"], some "Bold"⟩]
  keys := [⟨"Slot", [⟨"row", " u8 ", .value⟩]⟩]
  models := [⟨"Lamp", [⟨"key", "Slot", .key⟩, ⟨"shades", "Set<Shade>", .value⟩]⟩]

theorem resolve_slot : lamps.resolve .key "Slot" = .ok (.identity "Slot") := by
  have hkey : TypeExpression.parse? "Slot".toList = some (.name "Slot") :=
    TypeExpression.parse?_text (.name .none ⟨"Slot".toList, by decide⟩ .none)
  exact resolve_eq_ok_iff.2 ⟨_, hkey, .key (by decide)⟩

theorem resolve_shades : lamps.resolve .value "Set<Shade>" = .ok (.value .keySet ["Shade"]) := by
  have hshades : TypeExpression.parse? "Set<Shade>".toList = some (.set (.name "Shade")) :=
    TypeExpression.parse?_text (.set .none .none (.name .none ⟨"Shade".toList, by decide⟩ .none) .none)
  exact resolve_eq_ok_iff.2 ⟨_, hshades, .set (by decide)⟩

theorem faults_lamps : lamps.faults = [] := by
  refine faults_eq_nil_of_resolve (by decide) (by decide) fun m hm f hf => ?_
  obtain rfl := List.mem_singleton.1 hm
  rcases List.mem_pair.1 hf with rfl | rfl
  · exact ⟨_, resolve_slot⟩
  · exact ⟨_, resolve_shades⟩

/-- The fields of the record come to its key and a set. -/
theorem accepted_iff_wellFormed_of_lamps :
    lamps.faults = [] ∧ ∀ m ∈ lamps.models, ∃ fields, lamps.resolveModel m = .ok fields :=
  ⟨faults_lamps, (accepted_iff_wellFormed lamps).2 faults_lamps⟩

end Schema

end VersionedRecords
