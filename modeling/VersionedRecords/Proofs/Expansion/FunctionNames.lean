import Mathlib.Data.List.Nodup
import Mathlib.Data.List.Perm.Basic
import VersionedRecords.Proofs.Schema.Keywords

/-!
The names of generated functions.

Each of the four generated types has functions for every field, and their names are made from the
name of the field by putting something in front of it or behind it.  What is checked is that no
field has one of some fixed names.  So the functions of a type are told apart by their names unless
the name of one field is made from the name of another, or two names that are made in different ways
come to the same.
-/

namespace VersionedRecords

open Source

namespace Source

/-- No two functions of an implementation have the same name.  The mark of a raw word is no part of
a name. -/
def Implementation.Unambiguous (i : Implementation) : Prop :=
  (i.functions.map fun f => bareWord f.name).Nodup

/-- Names that are different words.  A word has the sign of a raw word in its mark only. -/
structure Distinct (names : List String) : Prop where
  nodup : (names.map bareWord).Nodup
  words : ∀ n ∈ names, '#' ∉ (bareWord n).toList

/-- The names of the fields of a struct, as they are written. -/
def StructDeclaration.fieldNames (d : StructDeclaration) : List String :=
  match d.body with
  | .named fields => fields.map StructField.name
  | _ => []

theorem bareWord_eq_self {word : String} (h : '#' ∉ word.toList) : bareWord word = word := by
  rw [bareWord]
  split
  · next hword => simp [hword] at h
  · rfl

/-- A word comes to a plain one if it is that word, raw or not. -/
theorem eq_or_eq_of_bareWord_eq {word plain : String} (h : bareWord word = plain) :
    word = plain ∨ word = "r#" ++ plain := by
  rw [bareWord] at h
  split at h
  · next rest hword =>
    refine .inr ?_
    rw [← h, ← String.toList_inj, hword]
    simp
  · exact .inl h

theorem bareWord_raw (plain : String) : bareWord ("r#" ++ plain) = plain := by
  simp [bareWord]

theorem Distinct.perm {names names' : List String} (h : Distinct names) (hp : names.Perm names') :
    Distinct names' :=
  ⟨(hp.map bareWord).nodup_iff.1 h.nodup, fun n hn => h.words n (hp.mem_iff.2 hn)⟩

end Source

namespace Blueprint

/-- The implementations of the generated types that are not of a trait. -/
def inherents (b : Blueprint) : List Implementation :=
  [b.snapshotInherent, b.draftInherent, b.changeInherent, b.accumulatorInherent]

/-- Whether a draft can show a field as it is. -/
def ValueField.shown (f : ValueField) : Bool := f.shape.readable

/-- The names of the key and of some of the other fields, as they are written. -/
def namesWhere (b : Blueprint) (p : ValueField → Bool) : List String :=
  b.key.name :: (b.fields.filter p).map ValueField.name

/-- The names of all fields. -/
def names (b : Blueprint) : List String := b.key.name :: b.fields.map ValueField.name

/-- No name that is made from the name of a field is taken. -/
structure Spaced (b : Blueprint) : Prop where
  /-- No raw word is the name of one of the functions that every snapshot has. -/
  raw : "r#builder" ∉ b.names ∧ "r#delta_builder" ∉ b.names
  borrowed : ∀ f ∈ b.fields, f.derivedName "" "_mut" ∉ (b.namesWhere ValueField.shown).map bareWord
  replaced : ∀ f ∈ b.fields, f.derivedName "set_" "" ∉ (b.namesWhere ValueField.shown).map bareWord
  edits : ∀ f ∈ b.fields, ∀ g ∈ b.fields, f.derivedName "" "_mut" ≠ g.derivedName "set_" ""
  asked : ∀ f ∈ b.fields, f.derivedName "has_" "" ∉ b.names.map bareWord
  /-- Only a map of sub-records has all of its changes in one list. -/
  flattened : ∀ f ∈ b.fields, f.shape = .modelMap →
    f.derivedName "" "_flatten" ∉ b.names.map bareWord
  questions : ∀ f ∈ b.fields, ∀ g ∈ b.fields, g.shape = .modelMap →
    f.derivedName "has_" "" ≠ g.derivedName "" "_flatten"
  merged : ∀ f ∈ b.fields, f.derivedName "add_" "" ∉ b.names.map bareWord

/-! ### What is checked -/

/-- What the checks say of the fields of a blueprint. -/
structure Checked (b : Blueprint) : Prop where
  key : b.key.name ∈ Schema.reservedFieldNames → b.key.name = "key"
  fields : ∀ f ∈ b.fields, f.name ∉ Schema.reservedFieldNames ∧ f.arguments.length = f.shape.arity

section Checks

variable {f : StructField}

theorem keyField_eq_ok {found : Bool} {k : KeyField} (h : keyField found f = .ok k) :
    found = false ∧ k.name = f.name ∧ (k.name ∈ Schema.reservedFieldNames → k.name = "key") := by
  rw [keyField] at h
  split at h
  · cases h
  · next hfound =>
    split at h
    · cases h
    · split at h
      · cases h
      · next hreserved =>
        cases h
        refine ⟨Bool.eq_false_iff.2 hfound, rfl, fun hmem => ?_⟩
        by_contra hne
        exact hreserved ⟨hne, hmem⟩

theorem valueField_eq_ok {v : ValueField} (h : valueField f = .ok v) :
    v.name = f.name ∧ v.name ∉ Schema.reservedFieldNames ∧
      v.arguments.length = v.shape.arity := by
  rw [valueField] at h
  split at h
  · cases h
  · next hreserved =>
    split at h
    · cases h
    · split at h
      · next harity =>
        cases h
        exact ⟨rfl, hreserved, harity⟩
      · cases h

/-- Sorting keeps all fields, and all of them have passed their checks. -/
theorem sortFields_eq_ok {declared : List StructField} {key found : Option KeyField}
    {values : List ValueField} (h : sortFields found declared = .ok (key, values)) :
    ((found.toList.map KeyField.name) ++ declared.map StructField.name).Perm
        (key.toList.map KeyField.name ++ values.map ValueField.name) ∧
      (∀ k ∈ key, k ∈ found ∨ (k.name ∈ Schema.reservedFieldNames → k.name = "key")) ∧
      ∀ v ∈ values, v.name ∉ Schema.reservedFieldNames ∧
        v.arguments.length = v.shape.arity := by
  induction declared generalizing found key values with
  | nil =>
    cases h
    exact ⟨.refl _, fun k hk => .inl hk, by simp⟩
  | cons f rest ih =>
    rw [sortFields] at h
    split at h
    · obtain ⟨k, hk, hrest⟩ := Schema.bind_eq_ok_iff.1 h
      obtain ⟨hfound, hname, hreserved⟩ := keyField_eq_ok hk
      obtain rfl : found = none := by simpa using hfound
      obtain ⟨hperm, hkey, hvalues⟩ := ih hrest
      refine ⟨by simpa [hname] using hperm, fun k' hk' => .inr ?_, hvalues⟩
      rcases hkey k' hk' with hsame | hpassed
      · obtain rfl : k = k' := by simpa using hsame
        exact hreserved
      · exact hpassed
    · obtain ⟨v, hv, hbehind⟩ := Schema.bind_eq_ok_iff.1 h
      obtain ⟨⟨key', values'⟩, hrest, hpure⟩ := Schema.bind_eq_ok_iff.1 hbehind
      cases hpure
      obtain ⟨hname, hpassed⟩ := valueField_eq_ok hv
      obtain ⟨hperm, hkey, hvalues⟩ := ih hrest
      refine ⟨?_, hkey, List.forall_mem_cons.2 ⟨hpassed, hvalues⟩⟩
      rw [List.map_cons, List.map_cons, hname]
      exact List.perm_middle.trans ((hperm.cons _).trans List.perm_middle.symm)

/-- A blueprint has the names of the fields of its declaration, and has passed the checks. -/
theorem ofDeclaration_eq_ok {items : List AttributeItem} {d : StructDeclaration} {b : Blueprint}
    (h : ofDeclaration items d = .ok b) : d.fieldNames.Perm b.names ∧ b.Checked := by
  rw [ofDeclaration] at h
  obtain ⟨fingerprint, -, h⟩ := Schema.bind_eq_ok_iff.1 h
  obtain ⟨attributes, visibility, name, isGeneric, body⟩ := d
  cases isGeneric with
  | true => cases body <;> cases h
  | false =>
    cases body with
    | unnamed => cases h
    | unit => cases h
    | named declared =>
      obtain ⟨⟨key, values⟩, hsort, h⟩ := Schema.bind_eq_ok_iff.1 h
      obtain ⟨hperm, hkey, hvalues⟩ := sortFields_eq_ok hsort
      cases key with
      | none => cases h
      | some key =>
        cases h
        refine ⟨hperm, ?_, hvalues⟩
        simpa using hkey key rfl

end Checks

/-! ### The names of the functions -/

section Names

variable {b : Blueprint} {f : ValueField}

/-- A part of the names of functions that only some fields have. -/
theorem flatMap_ite {α β : Type} (p : α → Bool) (x : α → β) (as : List α) :
    as.flatMap (fun a => if p a then [x a] else []) = (as.filter p).map x := by
  induction as with
  | nil => rfl
  | cons a as ih =>
    rw [List.flatMap_cons, ih, List.filter_cons]
    split <;> rfl

/-- The names of functions for some fields, sorted by how they are made. -/
theorem perm_flatMap {α β : Type} {p q r : α → Bool} {x y z : α → β} {g : α → List β} {as : List α}
    (h : ∀ a ∈ as, g a = (if p a then [x a] else [])
      ++ ((if q a then [y a] else []) ++ if r a then [z a] else [])) :
    (as.flatMap g).Perm ((as.filter p).map x ++ ((as.filter q).map y ++ (as.filter r).map z)) := by
  rw [List.flatMap_congr h, ← flatMap_ite, ← flatMap_ite, ← flatMap_ite]
  refine (List.flatMap_append_perm _ _ _).symm.trans (.append_left _ ?_)
  exact (List.flatMap_append_perm _ _ _).symm

theorem disjoint_map_iff {α β : Type} {x : α → β} {as : List α} {bs : List β} :
    bs.Disjoint (as.map x) ↔ ∀ a ∈ as, x a ∉ bs := by
  constructor
  · exact fun h a ha hmem => h hmem (List.mem_map_of_mem ha)
  · intro h b hb hmem
    obtain ⟨a, ha, rfl⟩ := List.mem_map.1 hmem
    exact h a ha hb

/-- Names that are made in one way from different names are different. -/
theorem nodup_derivedName {fs : List ValueField} (h : (fs.map fun f => bareWord f.name).Nodup)
    (p : ValueField → Bool) (front behind : String) :
    ((fs.filter p).map fun f => f.derivedName front behind).Nodup := by
  have hmade : (fun f : ValueField => f.derivedName front behind) =
      (fun n => front ++ n ++ behind) ∘ fun f => bareWord f.name := rfl
  rw [hmade, ← List.map_map]
  refine (h.sublist (List.filter_sublist.map _)).map fun n n' hn => ?_
  simpa [String.append_left_inj, String.append_right_inj] using hn

/-- A name that is made from the name of a field is no raw word. -/
theorem bareWord_derivedName (front behind : String) (hword : '#' ∉ (bareWord f.name).toList)
    (hfront : '#' ∉ front.toList) (hbehind : '#' ∉ behind.toList) :
    bareWord (f.derivedName front behind) = f.derivedName front behind :=
  bareWord_eq_self (by simp [ValueField.derivedName, hword, hfront, hbehind])

/-- A reserved name can only be that of a raw word. -/
theorem Checked.mem_bareWord_iff (h : b.Checked) (plain : String)
    (hreserved : plain ∈ Schema.reservedFieldNames) (hkey : plain ≠ "key") :
    plain ∈ b.names.map bareWord ↔ "r#" ++ plain ∈ b.names := by
  have hnone : plain ∉ b.names := by
    rw [names, List.mem_cons, List.mem_map, not_or]
    constructor
    · rintro rfl
      exact hkey (h.key hreserved)
    · rintro ⟨f, hf, rfl⟩
      exact (h.fields f hf).1 hreserved
  constructor
  · intro hmem
    obtain ⟨n, hn, hbare⟩ := List.mem_map.1 hmem
    rcases eq_or_eq_of_bareWord_eq hbare with rfl | rfl
    · exact absurd hn hnone
    · exact hn
  · exact fun hmem => List.mem_map.2 ⟨_, hmem, bareWord_raw plain⟩

variable (hn : Distinct b.names)

include hn

theorem word_of_mem (hf : f ∈ b.fields) : '#' ∉ (bareWord f.name).toList :=
  hn.words _ (List.mem_cons_of_mem _ (List.mem_map_of_mem hf))

theorem nodup_fields : (b.fields.map fun f => bareWord f.name).Nodup := by
  have h := hn.nodup
  rw [names, List.map_cons, List.nodup_cons, List.map_map] at h
  exact h.2

/-- The functions of a type are told apart exactly if no name that is made from a field is the name
of some other function.  Here some fields have functions of their own name, and up to two others. -/
theorem unambiguous_iff {i : Implementation} {functions : ValueField → List Function}
    (hi : i.functions = b.keyFunction :: b.fields.flatMap functions) {p q r : ValueField → Bool}
    {front behind front' behind' : String}
    (h : ∀ f ∈ b.fields, (functions f).map (fun g => bareWord g.name) =
      (if p f then [bareWord f.name] else [])
        ++ ((if q f then [f.derivedName front behind] else [])
          ++ if r f then [f.derivedName front' behind'] else [])) :
    i.Unambiguous ↔
      (∀ f ∈ b.fields, q f = true → f.derivedName front behind ∉ (b.namesWhere p).map bareWord) ∧
      (∀ f ∈ b.fields, r f = true → f.derivedName front' behind' ∉ (b.namesWhere p).map bareWord) ∧
      ∀ f ∈ b.fields, q f = true → ∀ g ∈ b.fields, r g = true →
        f.derivedName front behind ≠ g.derivedName front' behind' := by
  have hperm : (i.functions.map fun g => bareWord g.name).Perm ((b.namesWhere p).map bareWord
      ++ ((b.fields.filter q).map (·.derivedName front behind)
        ++ (b.fields.filter r).map (·.derivedName front' behind'))) := by
    rw [hi, List.map_cons, List.map_flatMap, namesWhere, List.map_cons, List.map_map]
    exact (perm_flatMap h).cons _
  have hown : ((b.namesWhere p).map bareWord).Nodup :=
    hn.nodup.sublist (((List.filter_sublist.map _).cons_cons _).map _)
  have hfirst := nodup_derivedName (nodup_fields hn) q front behind
  have hsecond := nodup_derivedName (nodup_fields hn) r front' behind'
  rw [Implementation.Unambiguous, hperm.nodup_iff, List.nodup_append', List.nodup_append',
    List.disjoint_append_right, disjoint_map_iff, disjoint_map_iff, disjoint_map_iff]
  generalize (b.namesWhere p).map bareWord = own at hown
  simp only [hown, hfirst, hsecond, true_and, List.mem_map, List.mem_filter, not_exists, not_and,
    and_imp]
  constructor
  · rintro ⟨hbetween, hown, hown'⟩
    exact ⟨hown, hown', fun f hf hq g hg hr => hbetween g hg hr f hf hq⟩
  · rintro ⟨hown, hown', hbetween⟩
    exact ⟨fun g hg hr f hf hq => hbetween f hf hq g hg hr, hown, hown'⟩

theorem Checked.snapshot_iff (h : b.Checked) :
    b.snapshotInherent.Unambiguous ↔ "r#builder" ∉ b.names ∧ "r#delta_builder" ∉ b.names := by
  have hplain : bareWord "builder" = "builder" ∧ bareWord "delta_builder" = "delta_builder" := by
    decide
  have hnames : b.snapshotInherent.functions.map (fun f => bareWord f.name) =
      b.names.map bareWord ++ ["builder", "delta_builder"] := by
    simp only [snapshotInherent, snapshotFunctions, startFunctions, List.map_append, List.map_cons,
      List.map_nil, List.map_map, names, hplain]
    rfl
  have hbuilder : "builder" ∈ b.names.map bareWord ↔ "r#builder" ∈ b.names :=
    h.mem_bareWord_iff "builder" (by decide) (by decide)
  have haccumulator : "delta_builder" ∈ b.names.map bareWord ↔ "r#delta_builder" ∈ b.names :=
    h.mem_bareWord_iff "delta_builder" (by decide) (by decide)
  have hnodup : ["builder", "delta_builder"].Nodup := by decide
  rw [Implementation.Unambiguous, hnames, List.nodup_append', and_iff_right hn.nodup,
    and_iff_right hnodup, List.disjoint_comm]
  simp only [List.disjoint_cons_left, hbuilder, haccumulator, List.disjoint_nil_left, and_true]

theorem draft_iff : b.draftInherent.Unambiguous ↔
    (∀ f ∈ b.fields, f.derivedName "" "_mut" ∉ (b.namesWhere ValueField.shown).map bareWord) ∧
    (∀ f ∈ b.fields, f.derivedName "set_" "" ∉ (b.namesWhere ValueField.shown).map bareWord) ∧
    ∀ f ∈ b.fields, ∀ g ∈ b.fields, f.derivedName "" "_mut" ≠ g.derivedName "set_" "" := by
  have hfunctions : ∀ f ∈ b.fields, f.draftFunctions.map (fun g => bareWord g.name) =
      (if f.shown then [bareWord f.name] else [])
        ++ ((if true then [f.derivedName "" "_mut"] else [])
          ++ if true then [f.derivedName "set_" ""] else []) := by
    intro f hf
    have hword := word_of_mem hn hf
    have hmut := bareWord_derivedName "" "_mut" hword (by decide) (by decide)
    have hset := bareWord_derivedName "set_" "" hword (by decide) (by decide)
    cases hshown : f.shape.readable <;>
      simp [ValueField.draftFunctions, ValueField.shown, hshown, hmut, hset]
  have h := unambiguous_iff hn (i := b.draftInherent) rfl (q := fun _ => true) (r := fun _ => true)
    hfunctions
  simpa using h

theorem Checked.change_iff (hchecked : b.Checked) : b.changeInherent.Unambiguous ↔
    (∀ f ∈ b.fields, f.derivedName "has_" "" ∉ b.names.map bareWord) ∧
    (∀ f ∈ b.fields, f.shape = .modelMap → f.derivedName "" "_flatten" ∉ b.names.map bareWord) ∧
    ∀ f ∈ b.fields, ∀ g ∈ b.fields, g.shape = .modelMap →
      f.derivedName "has_" "" ≠ g.derivedName "" "_flatten" := by
  have hfunctions : ∀ f ∈ b.fields, f.changeFunctions.map (fun g => bareWord g.name) =
      (if true then [bareWord f.name] else [])
        ++ ((if true then [f.derivedName "has_" ""] else [])
          ++ if f.shape == .modelMap then [f.derivedName "" "_flatten"] else []) := by
    intro f hf
    have hword := word_of_mem hn hf
    have hhas := bareWord_derivedName "has_" "" hword (by decide) (by decide)
    have hflatten := bareWord_derivedName "" "_flatten" hword (by decide) (by decide)
    have harity := (hchecked.fields f hf).2
    rw [ValueField.changeFunctions]
    split
    · next hshape harguments => simp [hshape, hhas, hflatten]
    · next hother =>
      -- a map of sub-records has two types inside
      have hshape : f.shape ≠ .modelMap := by
        intro hshape
        rw [hshape] at harity
        obtain ⟨k, model, harguments⟩ := List.length_eq_two.1 harity
        exact hother k model hshape harguments
      simp [hshape, hhas]
  have h := unambiguous_iff hn (i := b.changeInherent) rfl (p := fun _ => true)
    (q := fun _ => true) (r := fun f => f.shape == .modelMap) hfunctions
  simpa [namesWhere, names] using h

theorem accumulator_iff : b.accumulatorInherent.Unambiguous ↔
    ∀ f ∈ b.fields, f.derivedName "add_" "" ∉ b.names.map bareWord := by
  have hfunctions : ∀ f ∈ b.fields, f.accumulatorFunctions.map (fun g => bareWord g.name) =
      (if true then [bareWord f.name] else [])
        ++ ((if true then [f.derivedName "add_" ""] else [])
          ++ if false then [f.derivedName "" ""] else []) := by
    intro f hf
    have hadd := bareWord_derivedName "add_" "" (word_of_mem hn hf) (by decide) (by decide)
    simp [ValueField.accumulatorFunctions, hadd]
  have h := unambiguous_iff hn (i := b.accumulatorInherent) rfl (p := fun _ => true)
    (q := fun _ => true) (r := fun _ => false) hfunctions
  simpa [namesWhere, names] using h

/-- The functions of the generated types are told apart exactly if the names of the fields are. -/
theorem Checked.unambiguous_iff_spaced (h : b.Checked) :
    (∀ i ∈ b.inherents, i.Unambiguous) ↔ b.Spaced := by
  simp only [inherents, List.forall_mem_cons, h.snapshot_iff hn, draft_iff hn, h.change_iff hn,
    accumulator_iff hn, List.not_mem_nil, false_imp_iff, implies_true, and_true]
  constructor
  · rintro ⟨hraw, ⟨hborrowed, hreplaced, hedits⟩, ⟨hasked, hflattened, hquestions⟩, hmerged⟩
    exact ⟨hraw, hborrowed, hreplaced, hedits, hasked, hflattened, hquestions, hmerged⟩
  · intro hspaced
    exact ⟨hspaced.raw, ⟨hspaced.borrowed, hspaced.replaced, hspaced.edits⟩,
      ⟨hspaced.asked, hspaced.flattened, hspaced.questions⟩, hspaced.merged⟩

end Names

/-! ### Expansions -/

section Expanding

variable {b : Blueprint}

/-- The implementations stand in the code of the blueprint. -/
theorem inherent_infix {i : Implementation} (hi : i ∈ b.inherents) : i.tokens <:+: b.tokens := by
  have hdraft : b.draftTokens <:+: b.tokens :=
    ⟨b.snapshotTokens, b.changeTokens ++ b.accumulatorTokens, by simp [tokens]⟩
  have hchange : b.changeTokens <:+: b.tokens :=
    ⟨b.snapshotTokens ++ b.draftTokens, b.accumulatorTokens, by simp [tokens]⟩
  have haccumulator : b.accumulatorTokens <:+: b.tokens := (List.suffix_append _ _).isInfix
  simp only [inherents, List.mem_cons, List.not_mem_nil, or_false] at hi
  rcases hi with rfl | rfl | rfl | rfl
  · exact infix_of_snapshot (List.infix_append _ _ _)
  · exact (List.infix_append _ _ _).trans hdraft
  · exact (List.infix_append _ _ _).trans hchange
  · exact (List.infix_append _ _ _).trans haccumulator

/-- A blueprint comes from a declaration in source text. -/
theorem exists_declaration {arguments item : String} (h : ofSource arguments item = .ok b) :
    ∃ d items, StructDeclaration.parse? item = some d ∧ ofDeclaration items d = .ok b := by
  rw [ofSource] at h
  split at h
  · cases h
  · cases h
  · next d items hd hitems =>
    refine ⟨d, items, hd, ?_⟩
    cases hof : ofDeclaration items d with
    | error e =>
      rw [hof] at h
      cases h
    | ok b' =>
      rw [hof] at h
      cases h
      rfl

end Expanding

end Blueprint

namespace Schema

variable {s : Schema} {m : ModelDeclaration} {b : Blueprint}

theorem SnakeCase.bareWord_eq {n : String} (h : SnakeCase n) :
    bareWord n = n ∧ '#' ∉ n.toList := by
  have hword : '#' ∉ n.toList := not_mem_of_isName h.isName rfl
  exact ⟨bareWord_eq_self hword, hword⟩

/-- The names of the fields of a blueprint are those of the fields of the record. -/
theorem Keeps.map_name (h : s.Keeps m b) : b.fields.map Blueprint.ValueField.name =
    (m.fields.filter fun f => f.role == .value).map FieldDeclaration.name := by
  have hfields := h.fields
  generalize m.fields.filter (fun f => f.role == .value) = declared, b.fields = values at hfields
  induction hfields with
  | nil => rfl
  | cons hfv _ ih => rw [List.map_cons, List.map_cons, hfv.1, ih]

theorem Keeps.perm_names (h : s.Keeps m b) :
    (m.fields.map FieldDeclaration.name).Perm b.names := by
  obtain ⟨k, hk, hname, -⟩ := h.key
  have hkeys : m.fields.filter (fun f => f.role == .key) = [k] := hk
  have hothers : (m.fields.filter fun f => !(f.role == .key)) =
      m.fields.filter fun f => f.role == .value := by
    refine List.filter_congr fun f _ => ?_
    cases f.role <;> rfl
  have hsplit := (List.filter_append_perm (fun f => f.role == .key) m.fields).symm.map
    FieldDeclaration.name
  rwa [hkeys, hothers, List.map_append, ← h.map_name, List.map_singleton, ← hname] at hsplit

/-- The names of the fields of a record are different words. -/
theorem Keeps.distinct (hkeeps : s.Keeps m b) (h : m.WellFormed s) : Distinct b.names := by
  have hbare : (m.fields.map FieldDeclaration.name).map bareWord =
      m.fields.map FieldDeclaration.name := by
    rw [List.map_map]
    exact List.map_congr_left fun f hf => (h.named.spelled f hf).bareWord_eq.1
  refine Distinct.perm ⟨?_, ?_⟩ hkeeps.perm_names
  · rw [hbare]
    exact h.named.distinct
  · intro n hn
    obtain ⟨f, hf, rfl⟩ := List.mem_map.1 hn
    obtain ⟨hplain, hword⟩ := (h.named.spelled f hf).bareWord_eq
    rwa [hplain]

/-- A record of a well-formed schema is kept by its blueprint, wherever its struct can be read. -/
theorem WellFormed.keeps_of_ofSource (h : s.WellFormed) (hm : m ∈ s.models)
    {fields : List ResolvedField} (hfields : s.resolveModel m = .ok fields)
    (hb : Blueprint.ofSource (attributeText fields) (structText m fields) = .ok b) :
    s.Keeps m b := by
  obtain ⟨k, identity, hk, hidentity, hkey⟩ := h.exists_key hm hfields
  have hresolved := h.resolved hm hfields
  obtain ⟨-, -, rfl⟩ := (ofSource_eq_ok_iff (h.pascalCase_model hm).isName
    (fun f hf => (hresolved f hf).1) (fun f hf => (hresolved f hf).2) hkey).1 hb
  exact keeps_blueprint h hfields hk hidentity

def dial : ModelDeclaration :=
  ⟨"Dial", [⟨"id", "u64", .key⟩, ⟨"label", "String", .value⟩, ⟨"unit", "u64", .value⟩]⟩

/-- A record in which the name of a field is made from that of another. -/
def gauge : ModelDeclaration :=
  ⟨"Gauge", [⟨"id", "u64", .key⟩, ⟨"name", "String", .value⟩, ⟨"has_name", "u64", .value⟩]⟩

def dials : Schema where
  output := "src/generated"
  imports := []
  enums := []
  keys := []
  models := [dial, gauge]

theorem faults_dials : dials.faults = [] := by
  have hid : ∃ r, dials.resolve .key "u64" = .ok r :=
    ⟨_, resolve_eq_ok_iff.2 ⟨_, parse?_isName (by decide), .key (by decide)⟩⟩
  have htext : ∃ r, dials.resolve .value "String" = .ok r :=
    ⟨_, resolve_eq_ok_iff.2 ⟨_, parse?_isName (by decide), .name (c := .primitive) (by decide)⟩⟩
  have hnumber : ∃ r, dials.resolve .value "u64" = .ok r :=
    ⟨_, resolve_eq_ok_iff.2 ⟨_, parse?_isName (by decide), .name (c := .primitive) (by decide)⟩⟩
  refine faults_eq_nil_of_resolve (by decide) (by decide) fun m hm => ?_
  rcases List.mem_pair.1 hm with rfl | rfl
  · simp [dial, hid, htext, hnumber]
  · simp [gauge, hid, htext, hnumber]

/-- The structs of both records can be read. -/
theorem exists_blueprint_of_dials {m : ModelDeclaration} (hm : m ∈ dials.models) :
    ∃ fields b, dials.resolveModel m = .ok fields ∧
      Blueprint.ofSource (attributeText fields) (structText m fields) = .ok b := by
  have hwell := faults_eq_nil_iff_wellFormed.1 faults_dials
  have hclear : ∀ m ∈ dials.models, Source.isIdentifier m.name = true ∧
      (∀ f ∈ m.fields, Source.isIdentifier f.name = true) ∧ ∀ k ∈ m.keyFields, k.type = "u64" := by
    decide
  obtain ⟨hname, hnames, htype⟩ := hclear m hm
  obtain ⟨fields, ts, hfields, hexpand⟩ := (hwell.expand_iff hm).2
    ⟨hname, fun f hf => .inl (hnames f hf), fun k hk name hparse => by
      rw [htype k hk, parse?_isName (by decide)] at hparse
      cases hparse
      decide⟩
  obtain ⟨b, hb, -⟩ := Blueprint.expand_eq_ok_iff.1 hexpand
  exact ⟨fields, b, hfields, hb⟩

end Schema

namespace Blueprint

theorem spaced_of_keeps_dial {b : Blueprint} (hkeeps : Schema.dials.Keeps Schema.dial b) :
    b.Spaced := by
  have hnames {n : String} (hn : n ∈ b.names) : n ∈ ["id", "label", "unit"] :=
    hkeeps.perm_names.mem_iff.2 hn
  have hfield {f : ValueField} (hf : f ∈ b.fields) : f.name ∈ ["label", "unit"] := by
    have hmem := List.mem_map_of_mem (f := ValueField.name) hf
    rw [hkeeps.map_name] at hmem
    exact hmem
  have hfree {front behind : String} (h : ∀ n ∈ ["label", "unit"],
      front ++ bareWord n ++ behind ∉ ["id", "label", "unit"].map bareWord) :
      ∀ f ∈ b.fields, f.derivedName front behind ∉ b.names.map bareWord := by
    intro f hf hmem
    obtain ⟨n, hn, hbare⟩ := List.mem_map.1 hmem
    exact h f.name (hfield hf) (List.mem_map.2 ⟨n, hnames hn, hbare⟩)
  have hshown {front behind : String} (h : ∀ f ∈ b.fields,
      f.derivedName front behind ∉ b.names.map bareWord) : ∀ f ∈ b.fields,
      f.derivedName front behind ∉ (b.namesWhere ValueField.shown).map bareWord :=
    fun f hf hmem =>
      h f hf (((List.filter_sublist.map _).cons_cons _).map bareWord |>.subset hmem)
  have hmade : ∀ n ∈ ["label", "unit"], ∀ n' ∈ ["label", "unit"],
      "" ++ bareWord n ++ "_mut" ≠ "set_" ++ bareWord n' ++ "" ∧
        "has_" ++ bareWord n ++ "" ≠ "" ++ bareWord n' ++ "_flatten" := by
    decide
  exact ⟨⟨fun h => absurd (hnames h) (by decide), fun h => absurd (hnames h) (by decide)⟩,
    hshown (hfree (by decide)), hshown (hfree (by decide)),
    fun f hf g hg => (hmade _ (hfield hf) _ (hfield hg)).1, hfree (by decide),
    fun f hf _ => hfree (by decide) f hf,
    fun f hf g hg _ => (hmade _ (hfield hf) _ (hfield hg)).2, hfree (by decide)⟩

/-- The functions of the types that are generated for a struct are told apart by their names exactly
if the names of its fields, which are different words, are spaced.  The same is true of the struct
of any record of a schema without faults, if it can be read. -/
theorem inherents_unambiguous_iff (d : StructDeclaration) (s : Schema) :
    (Distinct d.fieldNames → ∀ items b, ofDeclaration items d = .ok b →
      (∀ i ∈ b.inherents, i.tokens <:+: b.tokens) ∧
        ((∀ i ∈ b.inherents, i.Unambiguous) ↔ b.Spaced)) ∧
    (s.faults = [] → ∀ m ∈ s.models, ∃ fields, s.resolveModel m = .ok fields ∧
      ∀ b, ofSource (Schema.attributeText fields) (Schema.structText m fields) = .ok b →
        s.Keeps m b ∧ ((∀ i ∈ b.inherents, i.Unambiguous) ↔ b.Spaced)) := by
  refine ⟨fun hdistinct items b hof => ⟨fun i => inherent_infix, ?_⟩, fun hs m hm => ?_⟩
  · obtain ⟨hperm, hchecked⟩ := ofDeclaration_eq_ok hof
    exact hchecked.unambiguous_iff_spaced (hdistinct.perm hperm)
  · have hwell := Schema.faults_eq_nil_iff_wellFormed.1 hs
    obtain ⟨fields, hfields⟩ := hwell.exists_resolveModel hm
    refine ⟨fields, hfields, fun b hb => ?_⟩
    have hkeeps := hwell.keeps_of_ofSource hm hfields hb
    obtain ⟨d, items, -, hof⟩ := exists_declaration hb
    obtain ⟨-, hchecked⟩ := ofDeclaration_eq_ok hof
    exact ⟨hkeeps, hchecked.unambiguous_iff_spaced (hkeeps.distinct (hwell.models m hm))⟩

/-- The fields of a dial have spaced names. -/
theorem inherents_unambiguous_of_dial : Schema.dials.faults = [] ∧
    ∃ fields b items d, Schema.dials.resolveModel Schema.dial = .ok fields ∧
      ofSource (Schema.attributeText fields) (Schema.structText Schema.dial fields) = .ok b ∧
      ofDeclaration items d = .ok b ∧ Distinct d.fieldNames ∧ b.Spaced ∧
      ∀ i ∈ b.inherents, i.tokens <:+: b.tokens ∧ i.Unambiguous := by
  have hdial : Schema.dial ∈ Schema.dials.models := List.mem_cons_self
  obtain ⟨fields, b, hfields, hb⟩ := Schema.exists_blueprint_of_dials hdial
  obtain ⟨d, items, -, hof⟩ := exists_declaration hb
  obtain ⟨hstruct, hrecord⟩ := inherents_unambiguous_iff d Schema.dials
  obtain ⟨fields', hfields', hread⟩ := hrecord Schema.faults_dials Schema.dial hdial
  obtain rfl := Except.ok.inj (hfields.symm.trans hfields')
  obtain ⟨hkeeps, hiff⟩ := hread b hb
  have hspaced := spaced_of_keeps_dial hkeeps
  obtain ⟨hperm, -⟩ := ofDeclaration_eq_ok hof
  have hwell := Schema.faults_eq_nil_iff_wellFormed.1 Schema.faults_dials
  have hdistinct := (hkeeps.distinct (hwell.models _ hdial)).perm hperm.symm
  obtain ⟨hwritten, -⟩ := hstruct hdistinct items b hof
  exact ⟨Schema.faults_dials, fields, b, items, d, hfields, hb, hof, hdistinct, hspaced,
    fun i hi => ⟨hwritten i hi, hiff.2 hspaced i hi⟩⟩

/-- The schema has no faults and the struct of a gauge is accepted, and yet the function that tells
whether the name of the gauge is changed has the name of another one. -/
theorem gauge_ambiguous : Schema.dials.faults = [] ∧ Schema.gauge ∈ Schema.dials.models ∧
    ∃ fields b, Schema.dials.resolveModel Schema.gauge = .ok fields ∧
      ofSource (Schema.attributeText fields) (Schema.structText Schema.gauge fields) = .ok b ∧
      Distinct b.names ∧ ¬ b.changeInherent.Unambiguous := by
  have hgauge : Schema.gauge ∈ Schema.dials.models := List.mem_cons_of_mem _ List.mem_cons_self
  have hwell := Schema.faults_eq_nil_iff_wellFormed.1 Schema.faults_dials
  obtain ⟨fields, b, hfields, hb⟩ := Schema.exists_blueprint_of_dials hgauge
  have hkeeps := hwell.keeps_of_ofSource hgauge hfields hb
  have hdistinct := hkeeps.distinct (hwell.models _ hgauge)
  refine ⟨Schema.faults_dials, hgauge, fields, b, hfields, hb, hdistinct, fun h => ?_⟩
  obtain ⟨d, items, -, hof⟩ := exists_declaration hb
  obtain ⟨-, hchecked⟩ := ofDeclaration_eq_ok hof
  obtain ⟨hasked, -⟩ := (hchecked.change_iff hdistinct).1 h
  obtain ⟨f, hf, hname⟩ : ∃ f ∈ b.fields, f.name = "name" := by
    have hmem : "name" ∈ b.fields.map ValueField.name := by
      rw [hkeeps.map_name]
      decide
    exact List.mem_map.1 hmem
  have htaken : "has_name" ∈ b.names := hkeeps.perm_names.mem_iff.1 (by decide)
  refine hasked f hf (List.mem_map.2 ⟨_, htaken, ?_⟩)
  rw [ValueField.derivedName, hname]
  decide

end Blueprint

end VersionedRecords
