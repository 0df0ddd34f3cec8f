import Mathlib.Data.List.Count
import Mathlib.Data.List.Nodup
import VersionedRecords.Proofs.Files.Writing
import VersionedRecords.Proofs.Schema.ModuleNames

/-!
The files of generated code.

All files go into one directory: one for each record, under the name of the record in small letters,
and up to three common ones with fixed names.  Small letters keep names apart, since every capital
leaves a trace.  So two files can only have the same path if a record has the name that belongs to a
common file, and no rule for the names in a schema forbids that.
-/

namespace VersionedRecords

open Source

namespace Schema

/-! ### Paths -/

theorem nodup_toSnakeCase {names : List String} (h : ∀ n ∈ names, PascalCase n) :
    (names.map toSnakeCase).Nodup ↔ names.Nodup :=
  ⟨.of_map _, fun hnodup => hnodup.map_on fun n hn n' hn' => toSnakeCase_inj (h n hn) (h n' hn')⟩

/-- The names that belong to the common files, as far as there are any. -/
def takenNames (s : Schema) : List String :=
  (if !s.enums.isEmpty then ["Enums"] else []) ++ (if !s.keys.isEmpty then ["Keys"] else [])
    ++ ["Mod"]

/-- No record has a name that belongs to a common file. -/
def Unshared (s : Schema) : Prop := ∀ m ∈ s.models, m.name ∉ s.takenNames

/-- The name of the file for a module. -/
def fileOfModule (name : String) : String := name ++ ".rs"

section Paths

variable {s : Schema}

theorem fileOfModule_injective : Function.Injective fileOfModule :=
  fun _ _ h => (String.append_left_inj ".rs").1 h

theorem plain_fileOfModule {name : String} (h : IsName name) : Path.Plain (fileOfModule name) := by
  have hchars : (fileOfModule name).toList = name.toList ++ ".rs".toList := String.toList_append
  have hlast : 's' ∈ (fileOfModule name).toList := by simp [hchars]
  have hother {other : String} (hother : 's' ∉ other.toList) : fileOfModule name ≠ other := by
    rintro rfl
    exact hother hlast
  refine ⟨?_, hother (by decide), hother (by decide), hother (by decide)⟩
  rw [hchars, List.mem_append, not_or]
  exact ⟨not_mem_of_isName h rfl, by decide⟩

/-- The names of the generated modules. -/
def modules (s : Schema) : List String := moduleNames (!s.enums.isEmpty) (!s.keys.isEmpty) s.models

theorem takenNames_sublist (s : Schema) : s.takenNames.Sublist ["Enums", "Keys", "Mod"] := by
  rw [takenNames]
  split <;> split <;> decide

/-- The modules, with the index, are named after the taken names and the records. -/
theorem perm_modules (s : Schema) : (s.modules ++ ["mod"]).Perm
    ((s.takenNames ++ s.models.map ModelDeclaration.name).map toSnakeCase) := by
  have hcommon : toSnakeCase "Enums" = "enums" ∧ toSnakeCase "Keys" = "keys" ∧
      toSnakeCase "Mod" = "mod" := by
    decide
  have hmodels : s.models.map moduleName =
      (s.models.map ModelDeclaration.name).map toSnakeCase := by
    rw [List.map_map]
    rfl
  have htaken : s.takenNames.map toSnakeCase =
      (if !s.enums.isEmpty then ["enums"] else []) ++ (if !s.keys.isEmpty then ["keys"] else [])
        ++ ["mod"] := by
    rw [takenNames]
    split <;> split <;> simp [hcommon]
  rw [modules, moduleNames, List.map_append, ← hmodels, htaken, List.append_assoc,
    List.append_assoc _ ["mod"]]
  exact .append_left _ List.perm_append_comm

/-- The generated modules have different names, none of which is that of the index, exactly if no
record has the name of a common file. -/
theorem WellFormed.nodup_modules_iff (h : s.WellFormed) :
    (s.modules ++ ["mod"]).Nodup ↔ s.Unshared := by
  have hall : (∀ n ∈ ["Enums", "Keys", "Mod"], isPascalCase n = true) ∧
      ["Enums", "Keys", "Mod"].Nodup := by
    decide
  have htaken := s.takenNames_sublist
  have hpascal : ∀ n ∈ s.takenNames ++ s.models.map ModelDeclaration.name, PascalCase n := by
    intro n hn
    rcases List.mem_append.1 hn with hn | hn
    · exact isPascalCase_iff.1 (hall.1 n (htaken.subset hn))
    · exact h.spelled n (List.mem_append_right _ hn)
  rw [s.perm_modules.nodup_iff, nodup_toSnakeCase hpascal, List.nodup_append',
    and_iff_right (hall.2.sublist htaken), and_iff_right h.apart.nodup_models]
  constructor
  · exact fun hdisjoint m hm hmem => hdisjoint hmem (List.mem_map_of_mem hm)
  · intro hunshared n hn hmem
    obtain ⟨m, hm, rfl⟩ := List.mem_map.1 hmem
    exact hunshared m hm hn

/-- The names of all generated files are plain. -/
theorem WellFormed.plain_of_mem (h : s.WellFormed) {path : String}
    (hpath : path ∈ (s.modules ++ ["mod"]).map fileOfModule) : Path.Plain path := by
  obtain ⟨name, hname, rfl⟩ := List.mem_map.1 hpath
  refine plain_fileOfModule ?_
  rcases List.mem_append.1 hname with hname | hname
  · exact h.isName_of_declares (.module hname)
  · obtain rfl := List.mem_singleton.1 hname
    decide

/-- All files but the index. -/
def ownFiles (s : Schema) (models : List (ModelDeclaration × List ResolvedField)) :
    List GeneratedFile :=
  models.map (fun r => ⟨modelFileName r.1, modelFile r.1 r.2⟩)
    ++ (if !s.enums.isEmpty then [⟨"enums.rs", enumsFile s.enums⟩] else [])
    ++ if !s.keys.isEmpty then [⟨"keys.rs", keysFile s.keys⟩] else []

/-- There is a file for every module. -/
theorem perm_ownFiles {models : List (ModelDeclaration × List ResolvedField)}
    (hfirst : models.map Prod.fst = s.models) :
    ((s.ownFiles models).map GeneratedFile.path).Perm (s.modules.map fileOfModule) := by
  have hmodels : models.map (fun r => modelFileName r.1) =
      (s.models.map moduleName).map fileOfModule := by
    rw [← hfirst, List.map_map, List.map_map]
    rfl
  have hcommon : fileOfModule "enums" = "enums.rs" ∧ fileOfModule "keys" = "keys.rs" := by decide
  have hfiles : (s.ownFiles models).map GeneratedFile.path =
      (s.models.map moduleName).map fileOfModule
        ++ ((if !s.enums.isEmpty then ["enums"] else []).map fileOfModule
          ++ (if !s.keys.isEmpty then ["keys"] else []).map fileOfModule) := by
    rw [ownFiles, List.map_append, List.map_append, List.map_map, ← hmodels, List.append_assoc]
    refine congrArg _ ?_
    split <;> split <;> simp [hcommon]
  rw [hfiles, modules, moduleNames, List.map_append, List.map_append]
  exact List.perm_append_comm

end Paths

/-! ### The index -/

/-- The line that declares a module. -/
def declaringLine (name : String) : String := "mod " ++ name ++ ";"

/-- The line that passes on what a module holds. -/
def exportingLine (name : String) : String := "pub use " ++ name ++ "::*;"

/-- The lines of the file that ties the others together. -/
def indexLines (s : Schema) : List String :=
  [header, ""] ++ s.modules.map declaringLine ++ [""] ++ s.imports.map importLine
    ++ s.modules.map exportingLine

section Index

variable {s : Schema}

theorem declaringLine_injective : Function.Injective declaringLine := fun name name' h => by
  simpa [declaringLine, String.append_left_inj, String.append_right_inj] using h

theorem exportingLine_injective : Function.Injective exportingLine := fun name name' h => by
  simpa [exportingLine, String.append_left_inj, String.append_right_inj] using h

/-- A line that begins in another way declares nothing. -/
theorem ne_declaringLine {line : String} (h : line.toList.head? ≠ some 'm') (name : String) :
    line ≠ declaringLine name := by
  rintro rfl
  simp [declaringLine] at h

theorem head?_importLine (i : ImportDeclaration) : (importLine i).toList.head? ≠ some 'm' := by
  rw [importLine]
  split <;> simp

/-- A line that ends in another way passes nothing on. -/
theorem ne_exportingLine {line : String} (h : ¬ ['*', ';'] <:+ line.toList) (name : String) :
    line ≠ exportingLine name := by
  rintro rfl
  refine h ⟨"pub use ".toList ++ name.toList ++ "::".toList, ?_⟩
  simp [exportingLine]

/-- The name of an import stands in front of the end of its line. -/
theorem not_suffix_importLine {i : ImportDeclaration} (h : IsName i.name) :
    ¬ ['*', ';'] <:+ (importLine i).toList := by
  intro hsuffix
  have hlength : ['*', ';'].length ≤ (i.name.toList ++ [';']).length := by
    have hname := List.length_pos_iff.2 (Identifier.ne_nil ⟨i.name.toList, h⟩)
    rw [List.length_append]
    exact Nat.succ_le_succ hname
  have hinner := List.suffix_of_suffix_length_le hsuffix (suffix_importLine i) hlength
  have hstar : '*' ∈ i.name.toList := by
    simpa using hinner.subset List.mem_cons_self
  exact not_mem_of_isName h rfl hstar

/-- A line that is neither blank nor the header nor that of an import declares a module or passes
one on. -/
theorem count_indexLines {line : String} (hfixed : line ∉ [header, ""])
    (himports : ∀ i ∈ s.imports, line ≠ importLine i) : s.indexLines.count line =
      (s.modules.map declaringLine).count line + (s.modules.map exportingLine).count line := by
  have hnone : (s.imports.map importLine).count line = 0 :=
    List.count_eq_zero.2 fun hmem => by
      obtain ⟨i, hi, himport⟩ := List.mem_map.1 hmem
      exact himports i hi himport.symm
  have hblank : [header, ""].count line = 0 ∧ [""].count line = 0 :=
    ⟨List.count_eq_zero.2 hfixed,
      List.count_eq_zero.2 fun hmem => hfixed (List.mem_cons_of_mem _ hmem)⟩
  rw [indexLines, List.count_append, List.count_append, List.count_append, List.count_append, hnone,
    hblank.1, hblank.2, Nat.zero_add, Nat.add_zero]

theorem declaringLine_ne_exportingLine (name name' : String) :
    declaringLine name ≠ exportingLine name' := by
  refine (ne_declaringLine ?_ name).symm
  simp [exportingLine]

theorem count_declaringLine (s : Schema) (name : String) :
    s.indexLines.count (declaringLine name) = s.modules.count name := by
  have hheads : ∀ line ∈ [header, ""], line.toList.head? ≠ some 'm' := by decide
  have hfixed : declaringLine name ∉ [header, ""] := fun hmem =>
    ne_declaringLine (hheads _ hmem) name rfl
  have hexports : (s.modules.map exportingLine).count (declaringLine name) = 0 :=
    List.count_eq_zero.2 fun hmem => by
      obtain ⟨m, -, hm⟩ := List.mem_map.1 hmem
      exact declaringLine_ne_exportingLine name m hm.symm
  have himports : ∀ i ∈ s.imports, declaringLine name ≠ importLine i := fun i _ =>
    (ne_declaringLine (head?_importLine i) name).symm
  rw [count_indexLines hfixed himports, hexports,
    List.count_map_of_injective _ _ declaringLine_injective, Nat.add_zero]

theorem count_exportingLine (h : s.WellFormed) (name : String) :
    s.indexLines.count (exportingLine name) = s.modules.count name := by
  have hends : ∀ line ∈ [header, ""], ¬ ['*', ';'] <:+ line.toList := by decide
  have hfixed : exportingLine name ∉ [header, ""] := fun hmem =>
    ne_exportingLine (hends _ hmem) name rfl
  have himports : ∀ i ∈ s.imports, exportingLine name ≠ importLine i := fun i hi =>
    (ne_exportingLine (not_suffix_importLine (h.isName_of_declares (.imported hi))) name).symm
  have hdeclarations : (s.modules.map declaringLine).count (exportingLine name) = 0 :=
    List.count_eq_zero.2 fun hmem => by
      obtain ⟨m, -, hm⟩ := List.mem_map.1 hmem
      exact declaringLine_ne_exportingLine m name hm
  rw [count_indexLines hfixed himports, hdeclarations,
    List.count_map_of_injective _ _ exportingLine_injective, Nat.zero_add]

end Index

end Schema

/-- Where all paths are different, each gives its own file. -/
theorem GeneratedCode.file?_of_mem {g : GeneratedCode}
    (h : (g.files.map GeneratedFile.path).Nodup) {f : GeneratedFile} (hf : f ∈ g.files) :
    g.file? f.path = some f.content := by
  obtain ⟨f', hfind⟩ : ∃ f', g.files.find? (fun d => d.path == f.path) = some f' := by
    rw [← Option.isSome_iff_exists, List.find?_isSome]
    exact ⟨f, hf, beq_self_eq_true _⟩
  have hpath : f'.path = f.path := by simpa using List.find?_some hfind
  obtain rfl := List.inj_on_of_nodup_map h (List.mem_of_find?_eq_some hfind) hf hpath
  rw [file?, hfind, Option.map_some]

namespace Schema

/-- The code of a schema without faults is a list of files and an index, and the index declares a
module as often as there is a file for it.  No two of them have the same path exactly if no record
has the name of a common file.  Then every file is declared once, is found under its path, and is
still what it was when all have been written. -/
theorem files_apart_iff (s : Schema) (h : s.faults = []) :
    ∃ g others, s.generate = .ok g ∧ g.files = others ++ [⟨"mod.rs", ofLines s.indexLines⟩] ∧
      (∀ name,
        s.indexLines.count (declaringLine name) =
          (others.map GeneratedFile.path).count (fileOfModule name) ∧
        s.indexLines.count (exportingLine name) =
          (others.map GeneratedFile.path).count (fileOfModule name)) ∧
      ((g.files.map GeneratedFile.path).Nodup ↔ s.Unshared) ∧
      (s.Unshared →
        (∀ f ∈ others, ∃ name, f.path = fileOfModule name ∧
          s.indexLines.count (declaringLine name) = 1 ∧
          s.indexLines.count (exportingLine name) = 1) ∧
        (∀ f ∈ g.files, g.file? f.path = some f.content) ∧
        ∀ (root : String) (v : Volume), v.IsDirectory [] → ∃ first, first <+: g.files ∧
          (g.writeTo root v).Holding (g.directoryBelow root) first ∧
          ((g.writeTo root v).failure = none → first = g.files)) := by
  have hwell := faults_eq_nil_iff_wellFormed.1 h
  obtain ⟨models, g, hg, hfirst, -, hfiles, -⟩ := hwell.exists_generate
  have hfiles : g.files = s.ownFiles models ++ [⟨"mod.rs", ofLines s.indexLines⟩] := hfiles
  have hown := s.perm_ownFiles hfirst
  have hcount (name : String) : ((s.ownFiles models).map GeneratedFile.path).count
      (fileOfModule name) = s.modules.count name := by
    rw [hown.count_eq, List.count_map_of_injective _ _ fileOfModule_injective]
  have hpaths : (g.files.map GeneratedFile.path).Perm
      ((s.modules ++ ["mod"]).map fileOfModule) := by
    rw [hfiles, List.map_append, List.map_append]
    exact hown.append_right _
  have hnodup : (g.files.map GeneratedFile.path).Nodup ↔ s.Unshared := by
    rw [hpaths.nodup_iff, List.nodup_map_iff fileOfModule_injective, hwell.nodup_modules_iff]
  refine ⟨g, _, hg, hfiles, fun name => ?_, hnodup, fun hunshared => ⟨fun f hf => ?_, ?_, ?_⟩⟩
  · rw [hcount, count_declaringLine, count_exportingLine hwell]
    exact ⟨rfl, rfl⟩
  · obtain ⟨name, hname, hpath⟩ := List.mem_map.1
      (hown.mem_iff.1 (List.mem_map_of_mem (f := GeneratedFile.path) hf))
    have hmodules := (List.nodup_append.1 (hwell.nodup_modules_iff.2 hunshared)).1
    have hone := List.count_eq_one_of_mem hmodules hname
    exact ⟨name, hpath.symm, (count_declaringLine s name).trans hone,
      (count_exportingLine hwell name).trans hone⟩
  · exact fun f hf => GeneratedCode.file?_of_mem (hnodup.2 hunshared) hf
  · intro root v htop
    have hplain : ∀ f ∈ g.files, Path.Plain f.path := fun f hf =>
      hwell.plain_of_mem (hpaths.mem_iff.1 (List.mem_map_of_mem hf))
    obtain ⟨first, rest, hsplit, hholding, hall⟩ :=
      g.holding_writeTo htop hplain (hnodup.2 hunshared) root
    refine ⟨first, ⟨rest, hsplit.symm⟩, hholding, fun hnone => ?_⟩
    rw [hsplit, hall hnone, List.append_nil]

theorem directory_of_generate {s : Schema} {g : GeneratedCode} (h : s.generate = .ok g) :
    g.directory = s.output := by
  rw [generate] at h
  split at h
  · obtain ⟨models, -, h⟩ := bind_eq_ok_iff.1 h
    cases h
    rfl
  · cases h

/-- Nothing is in the way of the files of the lamps in an empty volume. -/
theorem failure_writeTo_lamps {g : GeneratedCode} (hg : lamps.generate = .ok g) :
    (g.writeTo "" {}).failure = none := by
  obtain ⟨models, g', hg', hfirst, -, hfiles, -⟩ :=
    (faults_eq_nil_iff_wellFormed.1 faults_lamps).exists_generate
  obtain rfl := Except.ok.inj (hg.symm.trans hg')
  obtain ⟨r, rfl, hr⟩ := List.map_eq_singleton_iff.1 hfirst
  have hdirectory : g.directoryBelow "" = "src/generated" := by
    rw [GeneratedCode.directoryBelow, directory_of_generate hg]
    decide
  have hpaths : Path.join "src/generated" "lamp.rs" = "src/generated/lamp.rs" ∧
      Path.join "src/generated" "enums.rs" = "src/generated/enums.rs" ∧
      Path.join "src/generated" "keys.rs" = "src/generated/keys.rs" ∧
      Path.join "src/generated" "mod.rs" = "src/generated/mod.rs" := by
    decide
  have hname : modelFileName r.1 = "lamp.rs" := by
    rw [hr]
    decide
  have hlisted : g.files = [⟨"lamp.rs", modelFile r.1 r.2⟩, ⟨"enums.rs", enumsFile lamps.enums⟩,
      ⟨"keys.rs", keysFile lamps.keys⟩, ⟨"mod.rs", ofLines lamps.indexLines⟩] := by
    rw [hfiles, ← hname]
    rfl
  rw [GeneratedCode.writeTo, hdirectory, hlisted]
  simp only [List.foldl_cons, List.foldl_nil, WriteOutcome.step, hpaths]
  rfl

/-- The files of the lamps can be written to an empty volume. -/
theorem files_apart_of_lamps : lamps.faults = [] ∧ lamps.Unshared ∧
    ∃ g, lamps.generate = .ok g ∧ (g.files.map GeneratedFile.path).Nodup ∧
      (g.writeTo "" {}).failure = none ∧
      (g.writeTo "" {}).Holding (g.directoryBelow "") g.files := by
  have hunshared : lamps.Unshared := by
    rw [Unshared]
    decide
  obtain ⟨g, others, hg, -, -, hnodup, hapart⟩ := files_apart_iff lamps faults_lamps
  obtain ⟨-, -, hwrite⟩ := hapart hunshared
  obtain ⟨first, -, hholding, hall⟩ := hwrite "" {} ⟨[], rfl⟩
  have hnone := failure_writeTo_lamps hg
  exact ⟨faults_lamps, hunshared, g, hg, hnodup.2 hunshared, hnone, hall hnone ▸ hholding⟩

/-- A schema with an enumeration and a record that is named like the file of the enumerations. -/
def shades : Schema where
  output := "src/generated"
  imports := []
  enums := [⟨"Shade", ["Plain"], none⟩]
  keys := []
  models := [⟨"Enums", [⟨"id", "u64", .key⟩]⟩]

theorem faults_shades : shades.faults = [] := by
  refine faults_eq_nil_of_resolve (by decide) (by decide) fun m hm f hf => ?_
  obtain rfl := List.mem_singleton.1 hm
  obtain rfl := List.mem_singleton.1 hf
  exact ⟨_, resolve_eq_ok_iff.2 ⟨_, parse?_isName (by decide), .key (by decide)⟩⟩

theorem modelFile_ne_enumsFile (m : ModelDeclaration) (fields : List ResolvedField)
    (e : EnumDeclaration) (es : List EnumDeclaration) :
    modelFile m fields ≠ enumsFile (e :: es) := by
  intro h
  have hlines := congrArg String.toList h
  simp [modelFile, enumsFile, enumLines, toList_ofLines] at hlines

/-- The schema has no faults, and yet one of its files takes the place of another. -/
theorem shades_not_apart : shades.faults = [] ∧
    ∃ g, shades.generate = .ok g ∧ ¬ (g.files.map GeneratedFile.path).Nodup ∧
      (∃ f ∈ g.files, g.file? f.path ≠ some f.content) ∧
      shades.indexLines.count (declaringLine "enums") = 2 := by
  obtain ⟨models, g, hg, hfirst, -, hfiles, -⟩ :=
    (faults_eq_nil_iff_wellFormed.1 faults_shades).exists_generate
  obtain ⟨r, rfl, hr⟩ := List.map_eq_singleton_iff.1 hfirst
  have hname : modelFileName r.1 = "enums.rs" := by
    rw [hr]
    decide
  have hlisted : g.files = [⟨modelFileName r.1, modelFile r.1 r.2⟩,
      ⟨"enums.rs", enumsFile shades.enums⟩, ⟨"mod.rs", ofLines shades.indexLines⟩] := hfiles
  rw [hname] at hlisted
  have hlost : g.file? "enums.rs" = some (modelFile r.1 r.2) := by
    simp [GeneratedCode.file?, hlisted]
  have hne : g.file? "enums.rs" ≠ some (enumsFile shades.enums) := by
    rw [hlost, Ne, Option.some_inj]
    exact modelFile_ne_enumsFile r.1 r.2 ⟨"Shade", ["Plain"], none⟩ []
  have htwice : shades.indexLines.count (declaringLine "enums") = 2 := by
    rw [count_declaringLine]
    decide
  refine ⟨faults_shades, g, hg, by simp [hlisted], ⟨⟨"enums.rs", enumsFile shades.enums⟩, ?_, hne⟩,
    htwice⟩
  simp [hlisted]

end Schema

end VersionedRecords
