import Mathlib.Data.Fintype.EquivFin
import Mathlib.Data.Fintype.Sets
import Mathlib.Logic.Relation
import Mathlib.Order.WellFounded
import VersionedRecords.Proofs.Schema.Keywords

/-!
Types that contain each other.

In generated code a key holds its parts by value, and the builder and the changes of a record hold
those of every record that it nests.  The types of the fields are checked one by one, by the class
of the name alone, so nothing keeps a type from holding itself, at once or through others.  None
does exactly if the keys and records can be put in an order in which the type of no field is just
the name of its own declaration or of a later one; what stands inside a set or a map is not held.
-/

namespace VersionedRecords

open Source

/-- The type of a field as it was written, without the blanks around it. -/
def FieldDeclaration.bareType (f : FieldDeclaration) : String :=
  String.ofList (Text.trim f.type.toList)

/-- One type holds another by value: a key holds the keys that its parts are, and a record holds the
records that it nests. -/
inductive Schema.Holds (s : Schema) : String → String → Prop
  | part {k k' : KeyDeclaration} {f : FieldDeclaration} (hk : k ∈ s.keys) (hk' : k' ∈ s.keys)
    (hf : f ∈ k.fields) (htype : f.bareType = k'.name) : Holds s k.name k'.name
  | nested {m : ModelDeclaration} {fields : List ResolvedField} {f : ResolvedField} {name : String}
    (hm : m ∈ s.models) (hfields : s.resolveModel m = .ok fields) (hf : f ∈ fields)
    (htype : f.type = .value .nested [name]) : Holds s m.name name

/-- A declared type that has fields: a key or a record. -/
structure Compound where
  name : String
  fields : List FieldDeclaration
deriving DecidableEq, Repr

def KeyDeclaration.compound (k : KeyDeclaration) : Compound := ⟨k.name, k.fields⟩

def ModelDeclaration.compound (m : ModelDeclaration) : Compound := ⟨m.name, m.fields⟩

def Schema.compounds (s : Schema) : List Compound :=
  s.keys.map KeyDeclaration.compound ++ s.models.map ModelDeclaration.compound

namespace Compound

/-- The type of a field of the one is the name of the other and nothing else. -/
def Uses (d d' : Compound) : Prop := ∃ f ∈ d.fields, f.bareType = d'.name

instance (d d' : Compound) : Decidable (d.Uses d') :=
  inferInstanceAs (Decidable (∃ f ∈ d.fields, f.bareType = d'.name))

/-- None of the types uses itself or one of those behind it. -/
def Layered : List Compound → Prop
  | [] => True
  | d :: rest => (∀ d' ∈ d :: rest, ¬ d.Uses d') ∧ Layered rest

instance decidableLayered : (ds : List Compound) → Decidable (Layered ds)
  | [] => isTrue trivial
  | d :: rest =>
    have := decidableLayered rest
    inferInstanceAs (Decidable ((∀ d' ∈ d :: rest, ¬ d.Uses d') ∧ Layered rest))

/-! ### Layers -/

section Layers

variable {ds ds' : List Compound} {d d' : Compound}

theorem Layered.append (h : Layered ds) (h' : Layered ds')
    (hapart : ∀ d ∈ ds, ∀ d' ∈ ds', ¬ d.Uses d') : Layered (ds ++ ds') := by
  induction ds with
  | nil => exact h'
  | cons d rest ih =>
    rw [List.forall_mem_cons] at hapart
    refine ⟨fun d' hd' => ?_, ih h.2 hapart.2⟩
    rcases List.mem_append.1 (List.cons_append .. ▸ hd') with hown | hother
    · exact h.1 d' hown
    · exact hapart.1 d' hother

/-- In layers the names go down along every use. -/
theorem Layered.idxOf_lt (h : Layered ds) (hnodup : (ds.map name).Nodup) (hd : d ∈ ds)
    (hd' : d' ∈ ds) (huses : d.Uses d') :
    (ds.map name).idxOf d'.name < (ds.map name).idxOf d.name := by
  induction ds with
  | nil => cases hd
  | cons first rest ih =>
    rw [List.map_cons, List.nodup_cons] at hnodup
    have hne {e : Compound} (he : e ∈ rest) : first.name ≠ e.name := fun hsame =>
      hnodup.1 (hsame ▸ List.mem_map_of_mem he)
    rcases List.mem_cons.1 hd with rfl | hd
    · exact absurd huses (h.1 d' hd')
    · rw [List.map_cons, List.idxOf_cons_ne _ (hne hd)]
      rcases List.mem_cons.1 hd' with rfl | hd'
      · rw [List.idxOf_cons_self]
        exact Nat.succ_pos _
      · rw [List.idxOf_cons_ne _ (hne hd')]
        exact Nat.succ_lt_succ (ih h.2 hnodup.2 hd hd')

/-- Where no type holds itself, some type uses none of them. -/
theorem exists_not_uses {r : String → String → Prop} (hacyclic : ∀ n, ¬ Relation.TransGen r n n)
    (huses : ∀ d ∈ ds, ∀ d' ∈ ds, d.Uses d' → r d.name d'.name) (hne : ds ≠ []) :
    ∃ d ∈ ds, ∀ d' ∈ ds, ¬ d.Uses d' := by
  let inside (d d' : { d // d ∈ ds }) : Prop := Relation.TransGen r d'.1.name d.1.name
  have htrans : IsTrans _ inside := ⟨fun _ _ _ h h' => h'.trans h⟩
  have hirrefl : Std.Irrefl inside := ⟨fun d => hacyclic d.1.name⟩
  have hwell := Finite.wellFounded_of_trans_of_irrefl inside
  obtain ⟨d, hd⟩ := List.exists_mem_of_ne_nil ds hne
  obtain ⟨⟨d, hd⟩, -, hleast⟩ := hwell.has_min Set.univ ⟨⟨d, hd⟩, trivial⟩
  exact ⟨d, hd, fun d' hd' h => hleast ⟨d', hd'⟩ trivial (.single (huses d hd d' hd' h))⟩

/-- Types that do not hold themselves can be put in layers, one by one: each time one that uses none
of those that are left. -/
theorem exists_layered {r : String → String → Prop} (hacyclic : ∀ n, ¬ Relation.TransGen r n n)
    (huses : ∀ d ∈ ds, ∀ d' ∈ ds, d.Uses d' → r d.name d'.name) :
    ∃ order : List Compound, order.Perm ds ∧ Layered order := by
  induction hn : ds.length generalizing ds with
  | zero => exact ⟨[], List.length_eq_zero_iff.1 hn ▸ .nil, trivial⟩
  | succ n ih =>
    have hne : ds ≠ [] := List.ne_nil_of_length_eq_add_one hn
    obtain ⟨d, hd, hleast⟩ := exists_not_uses hacyclic huses hne
    have hperm := List.perm_cons_erase hd
    have hrest : (ds.erase d).length = n := by
      rw [List.length_erase_of_mem hd, hn, Nat.add_sub_cancel]
    have hsub {e : Compound} (he : e ∈ ds.erase d) : e ∈ ds := List.mem_of_mem_erase he
    obtain ⟨order, horder, hlayered⟩ := ih
      (fun e he e' he' => huses e (hsub he) e' (hsub he')) hrest
    have hall : (d :: order).Perm ds := (horder.cons d).trans hperm.symm
    exact ⟨d :: order, hall, fun d' hd' => hleast d' (hall.mem_iff.1 hd'), hlayered⟩

end Layers

end Compound

namespace Schema

/-- The types with fields can be put in an order in which none uses itself or a later one. -/
def Layered (s : Schema) : Prop := ∃ order : List Compound, order.Perm s.compounds ∧
  Compound.Layered order

/-! ### What is held -/

section Held

variable {s : Schema} {m m' : ModelDeclaration} {a b : String}

/-- A text is read as a name if it is that name with blanks around. -/
theorem bareType_eq_of_parse? {f : FieldDeclaration}
    (h : TypeExpression.parse? f.type.toList = some (.name a)) : f.bareType = a := by
  obtain ⟨d, htext, hname⟩ := TypeExpression.exists_spelling_of_parse? h
  cases d with
  | name front identifier behind =>
    cases hname
    rw [FieldDeclaration.bareType, ← htext, TypeExpression.Spelling.trim_text]
    rfl
  | set => cases hname
  | map => cases hname

theorem parse?_of_bareType {f : FieldDeclaration} (h : f.bareType = a) (ha : IsName a) :
    TypeExpression.parse? f.type.toList = some (.name a) := by
  have hcore : Text.trim f.type.toList = a.toList := by
    rw [← h, FieldDeclaration.bareType, String.toList_ofList]
  obtain ⟨front, behind, htext⟩ := Text.Blanks.exists_append_trim f.type.toList
  rw [hcore] at htext
  have hread := TypeExpression.parse?_text (.name front ⟨a.toList, ha⟩ behind)
  rw [TypeExpression.Spelling.text, TypeExpression.Spelling.expression, String.ofList_toList]
    at hread
  rw [htext, hread]

theorem NamesApart.classOf?_model (h : s.NamesApart) (hm : m ∈ s.models) :
    s.classOf? m.name = some .model :=
  h.classOf?_eq_some_iff.2 (List.mem_map_of_mem hm)

theorem WellFormed.not_identifies (h : s.WellFormed) (hm : m ∈ s.models) :
    ¬ s.Identifies m.name := by
  intro hidentifies
  obtain ⟨c, hc, hscalar, -⟩ :=
    checkIdentity_eq_ok_iff'.1 (h.apart.checkIdentity_eq_ok_iff.2 hidentifies)
  obtain rfl := Option.some.inj ((h.apart.classOf?_model hm).symm.trans hc)
  cases hscalar

/-- A nested field comes of a type that is the name of a record and nothing else. -/
theorem ComesTo.of_nested {role : FieldRole} {t : TypeExpression}
    (h : s.ComesTo role t (.value .nested [a])) :
    t = .name a ∧ a ∈ s.models.map ModelDeclaration.name := by
  generalize hr : ResolvedType.value .nested [a] = r at h
  cases h with
  | key => cases hr
  | @name name c hname =>
    cases c <;> cases hr
    exact ⟨rfl, mem_namesOf_of_classOf? hname⟩
  | set => cases hr
  | @map key value c => cases c <;> cases hr

/-- A record holds every record whose name is the type of one of its fields. -/
theorem WellFormed.holds_of_uses (h : s.WellFormed) (hm : m ∈ s.models) (hm' : m' ∈ s.models)
    (huses : m.compound.Uses m'.compound) : s.Holds m.name m'.name := by
  obtain ⟨f, hf, hbare⟩ := huses
  have hname : IsName m'.name := (h.pascalCase_model hm').isName
  have hparse := parse?_of_bareType hbare hname
  obtain ⟨fields, hfields⟩ := h.exists_resolveModel hm
  obtain ⟨r, hr, -, -, t, ht, hcomes⟩ :=
    mem_of_forall₂ (forall₂_of_resolveModel hfields).flip hf
  obtain rfl := Option.some.inj (hparse.symm.trans ht)
  refine .nested hm hfields hr ?_
  generalize r.type = type at hcomes
  generalize f.role = role at hcomes
  cases hcomes with
  | key hkey => exact absurd (h.apart.checkIdentity_eq_ok_iff.1 hkey) (h.not_identifies hm')
  | name hclass =>
    obtain rfl := Option.some.inj ((h.apart.classOf?_model hm').symm.trans hclass)
    rfl

/-- Nothing is held but by a field whose type is a name and nothing else. -/
theorem exists_uses_of_holds (h : s.Holds a b) : ∃ d ∈ s.compounds, ∃ d' ∈ s.compounds,
    d.name = a ∧ d'.name = b ∧ d.Uses d' := by
  cases h with
  | @part k k' f hk hk' hf htype =>
    exact ⟨k.compound, List.mem_append_left _ (List.mem_map_of_mem hk), k'.compound,
      List.mem_append_left _ (List.mem_map_of_mem hk'), rfl, rfl, f, hf, htype⟩
  | @nested m fields r name hm hfields hr htype =>
    obtain ⟨f, hf, -, -, t, ht, hcomes⟩ := mem_of_forall₂ (forall₂_of_resolveModel hfields) hr
    rw [htype] at hcomes
    obtain ⟨rfl, hname⟩ := hcomes.of_nested
    obtain ⟨m', hm', rfl⟩ := List.mem_map.1 hname
    exact ⟨m.compound, List.mem_append_right _ (List.mem_map_of_mem hm), m'.compound,
      List.mem_append_right _ (List.mem_map_of_mem hm'), rfl, rfl, f, hf,
      bareType_eq_of_parse? ht⟩

theorem map_name_compounds (s : Schema) : s.compounds.map Compound.name =
    s.keys.map KeyDeclaration.name ++ s.models.map ModelDeclaration.name := by
  rw [compounds, List.map_append, List.map_map, List.map_map]
  rfl

theorem NamesApart.nodup_compounds (h : s.NamesApart) :
    (s.compounds.map Compound.name).Nodup := by
  have hdistinct := h.distinct
  rw [declaredNames, List.append_assoc] at hdistinct
  rw [map_name_compounds]
  exact (List.nodup_append.1 hdistinct).2.1

/-- A part of a key is never a record. -/
theorem WellFormed.not_uses_model (h : s.WellFormed) {k : KeyDeclaration} (hk : k ∈ s.keys)
    (hm : m ∈ s.models) : ¬ k.compound.Uses m.compound := by
  rintro ⟨f, hf, hbare⟩
  have hidentifies : s.Identifies f.bareType := (h.keys k hk).typed f hf
  rw [hbare] at hidentifies
  exact h.not_identifies hm hidentifies

end Held

/-! ### Cycles -/

section Cycles

variable {s : Schema}

theorem WellFormed.layered_of_acyclic (h : s.WellFormed)
    (hacyclic : ∀ name, ¬ Relation.TransGen s.Holds name name) : s.Layered := by
  have hkeys : ∀ d ∈ s.keys.map KeyDeclaration.compound,
      ∀ d' ∈ s.keys.map KeyDeclaration.compound, d.Uses d' → s.Holds d.name d'.name := by
    simp only [List.forall_mem_map]
    rintro k hk k' hk' ⟨f, hf, htype⟩
    exact .part hk hk' hf htype
  have hmodels : ∀ d ∈ s.models.map ModelDeclaration.compound,
      ∀ d' ∈ s.models.map ModelDeclaration.compound, d.Uses d' → s.Holds d.name d'.name := by
    simp only [List.forall_mem_map]
    exact fun m hm m' hm' => h.holds_of_uses hm hm'
  obtain ⟨keys, hkeysPerm, hkeysLayered⟩ := Compound.exists_layered hacyclic hkeys
  obtain ⟨models, hmodelsPerm, hmodelsLayered⟩ := Compound.exists_layered hacyclic hmodels
  refine ⟨keys ++ models, hkeysPerm.append hmodelsPerm, hkeysLayered.append hmodelsLayered ?_⟩
  intro d hd d' hd'
  obtain ⟨k, hk, rfl⟩ := List.mem_map.1 (hkeysPerm.mem_iff.1 hd)
  obtain ⟨m, hm, rfl⟩ := List.mem_map.1 (hmodelsPerm.mem_iff.1 hd')
  exact h.not_uses_model hk hm

theorem NamesApart.acyclic_of_layered (h : s.NamesApart) (hlayered : s.Layered) (name : String) :
    ¬ Relation.TransGen s.Holds name name := by
  obtain ⟨order, hperm, hlayered⟩ := hlayered
  let rank (n : String) : Nat := (order.map Compound.name).idxOf n
  have hnodup : (order.map Compound.name).Nodup :=
    (hperm.map Compound.name).nodup_iff.2 h.nodup_compounds
  have hdown : ∀ a b, s.Holds a b → rank b < rank a := by
    intro a b hholds
    obtain ⟨d, hd, d', hd', rfl, rfl, huses⟩ := exists_uses_of_holds hholds
    exact hlayered.idxOf_lt hnodup (hperm.mem_iff.2 hd) (hperm.mem_iff.2 hd') huses
  intro hcycle
  have hless : Relation.TransGen (· > ·) (rank name) (rank name) := hcycle.lift rank hdown
  rw [Relation.transGen_eq_self] at hless
  exact Nat.lt_irrefl _ hless

/-- In a schema without faults no type holds itself, at once or through others, exactly if the types
with fields can be put in an order in which none has a field whose type is just its own name or the
name of a later one. -/
theorem acyclic_iff_layered (s : Schema) (h : s.faults = []) :
    (∀ name, ¬ Relation.TransGen s.Holds name name) ↔ s.Layered := by
  have hwell := faults_eq_nil_iff_wellFormed.1 h
  exact ⟨hwell.layered_of_acyclic, hwell.apart.acyclic_of_layered⟩

/-- A schema in which every type stands in front of those that it holds.  The first record has
others like it inside, but only in a map. -/
def journeys : Schema where
  output := "src/generated"
  imports := []
  enums := []
  keys := [⟨"Seat", [⟨"row", " Row ", .value⟩, ⟨"number", "u8", .value⟩]⟩,
    ⟨"Row", [⟨"coach", "u8", .value⟩]⟩]
  models := [⟨"Journey", [⟨"id", "u64", .key⟩, ⟨"ticket", "Ticket", .value⟩,
      ⟨"legs", "Map<u8,Journey>", .value⟩]⟩,
    ⟨"Ticket", [⟨"seat", "Seat", .key⟩]⟩]

theorem resolve_legs :
    journeys.resolve .value "Map<u8,Journey>" = .ok (.value .modelMap ["u8", "Journey"]) := by
  have hlegs : TypeExpression.parse? "Map<u8,Journey>".toList =
      some (.map (.name "u8") (.name "Journey")) :=
    TypeExpression.parse?_text (.map .none .none (.name .none ⟨"u8".toList, by decide⟩ .none)
      (.name .none ⟨"Journey".toList, by decide⟩ .none) .none)
  exact resolve_eq_ok_iff.2 ⟨_, hlegs, .map (c := .model) (by decide) (by decide)⟩

theorem faults_journeys : journeys.faults = [] := by
  refine faults_eq_nil_of_resolve (by decide) (by decide) fun m hm f hf => ?_
  rcases List.mem_pair.1 hm with rfl | rfl
  · simp only [List.mem_cons, List.not_mem_nil, or_false] at hf
    rcases hf with rfl | rfl | rfl
    · exact ⟨_, resolve_eq_ok_iff.2 ⟨_, parse?_isName (by decide), .key (by decide)⟩⟩
    · exact ⟨_, resolve_eq_ok_iff.2 ⟨_, parse?_isName (by decide), .name (c := .model) (by decide)⟩⟩
    · exact ⟨_, resolve_legs⟩
  · obtain rfl := List.mem_singleton.1 hf
    exact ⟨_, resolve_eq_ok_iff.2 ⟨_, parse?_isName (by decide), .key (by decide)⟩⟩

/-- The types of the journeys can be put in order, so none holds itself. -/
theorem acyclic_iff_layered_of_journeys : journeys.faults = [] ∧ journeys.Layered ∧
    journeys.Holds "Journey" "Ticket" ∧
    ∀ name, ¬ Relation.TransGen journeys.Holds name name := by
  -- the row, the seat, the ticket and the journey
  have hlayered : journeys.Layered := ⟨journeys.compounds.reverse.rotate 2, by decide, by decide⟩
  have hholds : journeys.Holds "Journey" "Ticket" :=
    (faults_eq_nil_iff_wellFormed.1 faults_journeys).holds_of_uses List.mem_cons_self
      (List.mem_cons_of_mem _ List.mem_cons_self) (by decide)
  exact ⟨faults_journeys, hlayered, hholds,
    (acyclic_iff_layered journeys faults_journeys).2 hlayered⟩

/-- A schema with two keys that are parts of each other, and a record that nests itself. -/
def links : Schema where
  output := "src/generated"
  imports := []
  enums := []
  keys := [⟨"Hook", [⟨"eye", "Eye", .value⟩]⟩, ⟨"Eye", [⟨"hook", "Hook", .value⟩]⟩]
  models := [⟨"Link", [⟨"id", "u64", .key⟩, ⟨"next", "Link", .value⟩]⟩]

theorem faults_links : links.faults = [] := by
  refine faults_eq_nil_of_resolve (by decide) (by decide) fun m hm f hf => ?_
  obtain rfl := List.mem_singleton.1 hm
  rcases List.mem_pair.1 hf with rfl | rfl
  · exact ⟨_, resolve_eq_ok_iff.2 ⟨_, parse?_isName (by decide), .key (by decide)⟩⟩
  · exact ⟨_, resolve_eq_ok_iff.2 ⟨_, parse?_isName (by decide), .name (c := .model) (by decide)⟩⟩

/-- The schema has no faults, and yet a key holds itself through another, and a record at once. -/
theorem links_not_acyclic : links.faults = [] ∧ Relation.TransGen links.Holds "Hook" "Hook" ∧
    Relation.TransGen links.Holds "Link" "Link" := by
  let hook : KeyDeclaration := ⟨"Hook", [⟨"eye", "Eye", .value⟩]⟩
  let eye : KeyDeclaration := ⟨"Eye", [⟨"hook", "Hook", .value⟩]⟩
  have hhook : hook ∈ links.keys := List.mem_cons_self
  have heye : eye ∈ links.keys := List.mem_cons_of_mem _ List.mem_cons_self
  have hinto : links.Holds "Hook" "Eye" := .part hhook heye List.mem_cons_self (by decide)
  have hback : links.Holds "Eye" "Hook" := .part heye hhook List.mem_cons_self (by decide)
  have hself : links.Holds "Link" "Link" :=
    (faults_eq_nil_iff_wellFormed.1 faults_links).holds_of_uses List.mem_cons_self
      List.mem_cons_self (by decide)
  exact ⟨faults_links, .tail (.single hinto) hback, .single hself⟩

end Cycles

end Schema

end VersionedRecords
