import VersionedRecords.Proofs.Schema.WellFormed
import VersionedRecords.Schema.Write

/-!
Writing files to a volume.

A file is written to where its path leads, and a path may lead there by a detour: it may pass
through full stops, and through directories that it leaves again.  What counts is that a file is
only put where there is no directory, so that all directories stay what they are.  Then all paths
lead to where they led before, and files with different names do not meet.
-/

namespace VersionedRecords

/-! ### Parts of paths -/

namespace Text

variable {separator : Char}

theorem splitAt_append (a b : List Char) :
    splitAt separator (a ++ separator :: b) = splitAt separator a ++ splitAt separator b := by
  induction a with
  | nil => simp [splitAt]
  | cons c a ih =>
    rw [List.cons_append, splitAt, splitAt, ih]
    split
    · rfl
    · cases h : splitAt separator a with
      | nil => exact absurd h (splitAt_ne_nil separator a)
      | cons piece pieces => rfl

theorem splitAt_of_not_mem {s : List Char} (h : separator ∉ s) : splitAt separator s = [s] := by
  induction s with
  | nil => rfl
  | cons c s ih =>
    rw [List.mem_cons, not_or] at h
    rw [splitAt, if_neg (Ne.symm h.1), ih h.2]

end Text

namespace Path

/-- What may be the name of a file in a directory. -/
structure Plain (name : String) : Prop where
  unbroken : '/' ∉ name.toList
  nonempty : name ≠ ""
  moves : name ≠ "." ∧ name ≠ ".."

theorem parts_append (a b : String) : parts (a ++ "/" ++ b) = parts a ++ parts b := by
  have htext : (a ++ "/" ++ b).toList = a.toList ++ '/' :: b.toList := by simp
  rw [parts, htext, Text.splitAt_append, List.map_append, List.filter_append, parts, parts]

theorem parts_empty : parts "" = [] := by decide

variable {name : String}

theorem Plain.parts_eq (h : Plain name) : parts name = [name] := by
  simp [parts, Text.splitAt_of_not_mem h.unbroken, h.nonempty]

/-- A plain name below a path is its last part. -/
theorem Plain.parts_join (h : Plain name) (base : String) :
    parts (join base name) = parts base ++ [name] := by
  have hhead : name.toList.head? ≠ some '/' := fun hhead => h.unbroken (List.mem_of_head? hhead)
  rw [join]
  split
  · next hcase =>
    obtain rfl : base = "" := hcase.resolve_left hhead
    rw [parts_empty, h.parts_eq, List.nil_append]
  · split
    · next hlast =>
      obtain ⟨front, hfront⟩ := List.getLast?_eq_some_iff.1 hlast
      obtain rfl : base = String.ofList front ++ "/" := by
        rw [← String.toList_inj, hfront]
        simp
      have hbase : parts (String.ofList front ++ "/") = parts (String.ofList front) := by
        have happend := parts_append (String.ofList front) ""
        rwa [parts_empty, List.append_nil, String.append_empty] at happend
      rw [parts_append, h.parts_eq, hbase]
    · rw [parts_append, h.parts_eq]

end Path

/-! ### Places -/

namespace Entry

/-- What there is at a place below an entry. -/
def below? (e : Entry) : Location → Option Entry
  | [] => some e
  | name :: rest => (e.child? name).bind (·.below? rest)

variable {e new : Entry} {name : String}

theorem below?_append (l : Location) (name : String) :
    e.below? (l ++ [name]) = (e.below? l).bind (·.child? name) := by
  induction l generalizing e with
  | nil => simp [below?]
  | cons n l ih =>
    rw [List.cons_append, below?, below?]
    cases e.child? n with
    | none => rfl
    | some child => exact ih

theorem lookup_setChild_self (name : String) (e : Entry) (entries : List (String × Entry)) :
    (setChild name e entries).lookup name = some e := by
  induction entries with
  | nil => exact List.lookup_cons_self
  | cons old rest ih =>
    rw [setChild]
    split
    · exact List.lookup_cons_self
    · next hold => rw [List.lookup_cons, beq_false_of_ne (Ne.symm hold), ih]

theorem lookup_setChild_of_ne {other : String} (h : other ≠ name) (e : Entry)
    (entries : List (String × Entry)) :
    (setChild name e entries).lookup other = entries.lookup other := by
  induction entries with
  | nil => rw [setChild, List.lookup_cons, beq_false_of_ne h]
  | cons old rest ih =>
    rw [setChild]
    split
    · next hold => rw [List.lookup_cons, List.lookup_cons, hold, beq_false_of_ne h]
    · rw [List.lookup_cons, List.lookup_cons, ih]

theorem below?_setChild_self (n : String) (e : Entry) (es : List (String × Entry)) (l : Location) :
    (directory (setChild n e es)).below? (n :: l) = e.below? l := by
  simp [below?, child?, lookup_setChild_self]

theorem below?_setChild_of_ne {n m : String} (h : n ≠ m) (e : Entry) (es : List (String × Entry))
    (l : Location) :
    (directory (setChild m e es)).below? (n :: l) = (directory es).below? (n :: l) := by
  simp [below?, child?, lookup_setChild_of_ne h]

theorem below?_of_lookup {n : String} {es : List (String × Entry)} (h : es.lookup n = some e)
    (l : Location) : (directory es).below? (n :: l) = e.below? l := by
  simp [below?, child?, h]

/-- What is below a directory is at or below one of its entries. -/
theorem lookup_of_below? {n : String} {es : List (String × Entry)} {l : Location} {x : Entry}
    (h : (directory es).below? (n :: l) = some x) :
    ∃ child, es.lookup n = some child ∧ child.below? l = some x :=
  Option.bind_eq_some_iff.1 h

/-- Nothing is below a file. -/
theorem below?_file (content n : String) (l : Location) : (file content).below? (n :: l) = none :=
  rfl

theorem put_file (content : String) (l : Location) :
    put new (l ++ [name]) (file content) = file content := by
  cases l <;> rfl

theorem put_name (es : List (String × Entry)) :
    put new [name] (directory es) = directory (setChild name new es) :=
  rfl

theorem put_cons {n : String} {es : List (String × Entry)} (h : es.lookup n = some e)
    (l : Location) :
    put new (n :: l ++ [name]) (directory es) =
      directory (setChild n (put new (l ++ [name]) e) es) := by
  cases l <;> simp [put, h]

/-- Where there is no way, nothing is put. -/
theorem put_cons_of_none {n : String} {es : List (String × Entry)} (h : es.lookup n = none)
    (l : Location) : put new (n :: l ++ [name]) (directory es) = directory es := by
  cases l <;> simp [put, h]

/-- What has been put into a directory is there. -/
theorem below?_put_self {l : Location} {entries : List (String × Entry)}
    (h : e.below? l = some (directory entries)) :
    (put new (l ++ [name]) e).below? (l ++ [name]) = some new := by
  induction l generalizing e with
  | nil =>
    cases h
    exact below?_setChild_self name new entries []
  | cons n l ih =>
    cases e with
    | file content => cases h
    | directory es =>
      obtain ⟨child, hchild, hbelow⟩ := lookup_of_below? h
      rw [put_cons hchild, List.cons_append, below?_setChild_self]
      exact ih hbelow

/-- What stays of an entry when something changes elsewhere: the content of a file, and of a
directory that it is one. -/
inductive Kept : Entry → Entry → Prop
  | file (content : String) : Kept (file content) (file content)
  | directory (entries entries' : List (String × Entry)) :
    Kept (directory entries) (directory entries')

theorem Kept.refl (e : Entry) : Kept e e := by
  cases e with
  | file content => exact .file content
  | directory entries => exact .directory entries entries

/-- What is elsewhere stays when something is put where there is no directory. -/
theorem below?_put_of_ne {l l' : Location} (hne : l' ≠ l ++ [name])
    (hfree : ∀ entries, e.below? (l ++ [name]) ≠ some (directory entries)) {x : Entry}
    (hx : e.below? l' = some x) :
    ∃ x', (put new (l ++ [name]) e).below? l' = some x' ∧ Kept x x' := by
  induction l generalizing e l' with
  | nil =>
    cases e with
    | file content => exact ⟨x, by rwa [put_file], .refl x⟩
    | directory es =>
      rw [List.nil_append, put_name]
      cases l' with
      | nil =>
        cases hx
        exact ⟨_, rfl, .directory _ _⟩
      | cons n r =>
        by_cases hn : n = name
        · -- there is nothing else at or below the place
          subst hn
          obtain ⟨child, hchild, hbelow⟩ := lookup_of_below? hx
          have hplace : (directory es).below? [n] = some child := below?_of_lookup hchild []
          cases child with
          | directory entries => exact absurd hplace (hfree entries)
          | file content =>
            cases r with
            | nil => exact absurd rfl hne
            | cons m r =>
              rw [below?_file] at hbelow
              cases hbelow
        · exact ⟨x, by rwa [below?_setChild_of_ne hn], .refl x⟩
  | cons m l ih =>
    cases e with
    | file content => exact ⟨x, by rwa [put_file], .refl x⟩
    | directory es =>
      cases hm : es.lookup m with
      | none => exact ⟨x, by rwa [put_cons_of_none hm], .refl x⟩
      | some e =>
        rw [put_cons hm]
        rw [List.cons_append, below?_of_lookup hm] at hfree
        cases l' with
        | nil =>
          cases hx
          exact ⟨_, rfl, .directory _ _⟩
        | cons n r =>
          by_cases hn : n = m
          · subst hn
            rw [below?_of_lookup hm] at hx
            rw [below?_setChild_self]
            exact ih (fun h => hne (by rw [h]; rfl)) hfree hx
          · exact ⟨x, by rwa [below?_setChild_of_ne hn], .refl x⟩

end Entry

namespace Volume

variable {v v' : Volume}

theorem entry?_eq (v : Volume) (l : Location) : v.entry? l = v.top.below? l := by
  have hfold (e : Option Entry) : l.foldl (fun e name => e.bind fun e => e.child? name) e =
      e.bind (·.below? l) := by
    induction l generalizing e with
    | nil => simp [Entry.below?]
    | cons n l ih =>
      rw [List.foldl_cons, ih]
      cases e <;> rfl
  exact hfold _

theorem entry?_append (v : Volume) (l : Location) (name : String) :
    v.entry? (l ++ [name]) = (v.entry? l).bind (·.child? name) := by
  rw [entry?_eq, entry?_eq, Entry.below?_append]

/-- There is a directory at a place. -/
def IsDirectory (v : Volume) (l : Location) : Prop :=
  ∃ entries, v.entry? l = some (.directory entries)

/-- The place to which directories lead that have been entered one below the other. -/
def placeOf (way : List (String × Entry)) : Location := (way.map Prod.fst).reverse

/-- The directories that have been entered are where their names lead. -/
def Entered (v : Volume) : List (String × Entry) → Prop
  | [] => v.IsDirectory []
  | e :: way => (∃ entries, e.2 = .directory entries) ∧ v.entry? (placeOf (e :: way)) = some e.2 ∧
    v.Entered way

theorem entered_nil (h : v.IsDirectory []) : v.Entered [] := h

theorem placeOf_cons (e : String × Entry) (way : List (String × Entry)) :
    placeOf (e :: way) = placeOf way ++ [e.1] := by
  simp [placeOf]

variable {way way' : List (String × Entry)} {parts : List String} {l : Location}
  {there : Option Entry}

theorem Entered.here (h : v.Entered way) : v.entry? (placeOf way) = some (follow.here v way) := by
  cases way with
  | nil => rfl
  | cons e way => exact h.2.1

theorem Entered.isDirectory (h : v.Entered way) : v.IsDirectory (placeOf way) := by
  cases way with
  | nil => exact h
  | cons e way =>
    obtain ⟨⟨entries, hentries⟩, hentry, -⟩ := h
    exact ⟨entries, by rw [hentry, hentries]⟩

theorem Entered.child (h : v.Entered way) (name : String) :
    (follow.here v way).child? name = v.entry? (placeOf way ++ [name]) := by
  rw [entry?_append, h.here, Option.bind_some]

theorem Entered.tail (h : v.Entered way) : v.Entered way.tail := by
  cases way with
  | nil => exact h
  | cons e way => exact h.2.2

theorem Entered.cons (h : v.Entered way) {name : String} {entries : List (String × Entry)}
    (hentry : v.entry? (placeOf way ++ [name]) = some (.directory entries)) :
    v.Entered ((name, .directory entries) :: way) :=
  ⟨⟨entries, rfl⟩, by rwa [placeOf_cons], h⟩

/-- A path leads to the same place in every volume with the same directories, and gives what is at
that place. -/
theorem follow_eq_ok (hdirectories : ∀ l, v.IsDirectory l → v'.IsDirectory l) (hway : v.Entered way)
    (hway' : v'.Entered way') (hnames : way.map Prod.fst = way'.map Prod.fst)
    (h : v.follow way parts = .ok (l, there)) : v'.follow way' parts = .ok (l, v'.entry? l) := by
  have hplace : placeOf way = placeOf way' := congrArg List.reverse hnames
  induction parts generalizing way way' with
  | nil =>
    cases h
    rw [follow, ← hway'.here, ← hplace, ← hnames]
    rfl
  | cons name rest ih =>
    rw [follow] at h ⊢
    split at h
    · next hdot =>
      rw [if_pos hdot]
      exact ih hway hway' hnames h hplace
    · next hdot =>
      rw [if_neg hdot]
      split at h
      · next hback =>
        rw [if_pos hback]
        have htail : way.tail.map Prod.fst = way'.tail.map Prod.fst := by
          rw [List.map_tail, List.map_tail, hnames]
        exact ih hway.tail hway'.tail htail h (congrArg List.reverse htail)
      · next hback =>
        rw [if_neg hback]
        split at h
        · cases h
        · next hlong =>
          rw [if_neg hlong]
          simp only [hway.child, hway'.child, ← hplace] at h ⊢
          split at h
          · next hlast =>
            cases h
            rw [if_pos hlast, ← hnames]
            simp [placeOf]
          · next hmore =>
            rw [if_neg hmore]
            split at h
            · next entries hentry =>
              obtain ⟨entries', hentry'⟩ := hdirectories _ ⟨entries, hentry⟩
              rw [hentry']
              have hcons := hway'.cons (hplace ▸ hentry')
              refine ih (hway.cons hentry) hcons (congrArg (name :: ·) hnames) h ?_
              rw [placeOf_cons, placeOf_cons, hplace]
            · cases h
            · cases h

/-- What a path leads to is what there is at its place. -/
theorem follow_entry? (htop : v.IsDirectory []) (h : v.follow [] parts = .ok (l, there)) :
    there = v.entry? l := by
  have hagain := follow_eq_ok (fun _ h => h) (entered_nil htop) (entered_nil htop) rfl h
  rw [h] at hagain
  cases hagain
  rfl

/-- A path with a plain name at its end leads into a directory. -/
theorem follow_name {name : String} (hname : name ≠ "." ∧ name ≠ "..") (hway : v.Entered way)
    (h : v.follow way (parts ++ [name]) = .ok (l, there)) :
    ∃ above, v.IsDirectory above ∧ l = above ++ [name] := by
  induction parts generalizing way with
  | nil =>
    rw [List.nil_append, follow, if_neg hname.1, if_neg hname.2] at h
    split at h
    · cases h
    · rw [if_pos rfl] at h
      cases h
      exact ⟨placeOf way, hway.isDirectory, by simp [placeOf]⟩
  | cons n rest ih =>
    rw [List.cons_append, follow] at h
    split at h
    · exact ih hway h
    · split at h
      · exact ih hway.tail h
      · split at h
        · cases h
        · rw [hway.child] at h
          simp only [List.append_eq_nil_iff, List.cons_ne_nil, and_false, if_false] at h
          split at h
          · next entries hentry => exact ih (hway.cons hentry) h
          · cases h
          · cases h

/-! ### Writing -/

/-- A path leads to a file with some content. -/
def Holds (v : Volume) (path content : String) : Prop :=
  ∃ l, v.follow [] (Path.parts path) = .ok (l, some (.file content))

theorem put_entry? {l : Location} {name : String} {new : Entry} (h : v.IsDirectory l) :
    entry? (v.put (l ++ [name]) new) (l ++ [name]) = some new := by
  obtain ⟨entries, h⟩ := h
  rw [entry?_eq] at h ⊢
  exact Entry.below?_put_self h

theorem put_keeps {l l' : Location} {name : String} {x : Entry} (new : Entry)
    (hne : l' ≠ l ++ [name]) (hfree : ¬ v.IsDirectory (l ++ [name])) (hx : v.entry? l' = some x) :
    ∃ x', entry? (v.put (l ++ [name]) new) l' = some x' ∧ Entry.Kept x x' := by
  rw [entry?_eq] at hx ⊢
  refine Entry.below?_put_of_ne hne (fun entries hentries => hfree ⟨entries, ?_⟩) hx
  rw [entry?_eq, hentries]

/-- All directories stay what they are when something is put where there is none. -/
theorem put_isDirectory {l l' : Location} {name : String} {new : Entry}
    (hfree : ¬ v.IsDirectory (l ++ [name])) (h : v.IsDirectory l') :
    (v.put (l ++ [name]) new).IsDirectory l' := by
  obtain ⟨entries, hentries⟩ := h
  have hne : l' ≠ l ++ [name] := by
    rintro rfl
    exact hfree ⟨entries, hentries⟩
  obtain ⟨x, hx, hkept⟩ := put_keeps new hne hfree hentries
  cases hkept with
  | directory _ entries' => exact ⟨entries', hx⟩

theorem write_eq_ok {path content : String} (h : v.write path content = .ok v') :
    ∃ l there, v.follow [] (Path.parts path) = .ok (l, there) ∧
      (∀ entries, there ≠ some (.directory entries)) ∧ v' = v.put l (.file content) := by
  rw [write] at h
  obtain ⟨-, -, h⟩ := Schema.bind_eq_ok_iff.1 h
  obtain ⟨⟨l, there⟩, hfollow, h⟩ := Schema.bind_eq_ok_iff.1 h
  refine ⟨l, there, hfollow, ?_⟩
  dsimp only at h
  split at h
  · cases h
  · next hnone =>
    cases h
    refine ⟨?_, rfl⟩
    rintro entries rfl
    exact hnone rfl

variable {base name content : String}

/-- A file that has been written holds its content, and so does every file that has another name. -/
theorem write_name (hname : Path.Plain name) (htop : v.IsDirectory [])
    (h : v.write (Path.join base name) content = .ok v') :
    v'.IsDirectory [] ∧ v'.Holds (Path.join base name) content ∧
      ∀ base' name' content', Path.Plain name' → name' ≠ name →
        v.Holds (Path.join base' name') content' → v'.Holds (Path.join base' name') content' := by
  obtain ⟨l, there, hfollow, hnone, rfl⟩ := write_eq_ok h
  have hentry := follow_entry? htop hfollow
  rw [hname.parts_join] at hfollow
  obtain ⟨above, habove, rfl⟩ := follow_name hname.moves (entered_nil htop) hfollow
  have hfree : ¬ v.IsDirectory (above ++ [name]) := by
    rintro ⟨entries, hentries⟩
    exact hnone entries (hentry.trans hentries)
  have hdirectories (l : Location) (hl : v.IsDirectory l) :
      (v.put (above ++ [name]) (.file content)).IsDirectory l := put_isDirectory hfree hl
  have htop' := entered_nil (hdirectories _ htop)
  refine ⟨hdirectories _ htop, ⟨above ++ [name], ?_⟩, ?_⟩
  · rw [hname.parts_join, ← put_entry? habove]
    exact follow_eq_ok hdirectories (entered_nil htop) htop' rfl hfollow
  · rintro base' name' content' hname' hne ⟨l', hl'⟩
    have hentry' := follow_entry? htop hl'
    rw [hname'.parts_join] at hl'
    obtain ⟨above', -, rfl⟩ := follow_name hname'.moves (entered_nil htop) hl'
    have hplaces : above' ++ [name'] ≠ above ++ [name] := by
      intro heq
      exact hne (List.append_inj_right' heq rfl |> List.singleton_inj.1)
    obtain ⟨x, hx, hkept⟩ := put_keeps (.file content) hplaces hfree hentry'.symm
    cases hkept
    refine ⟨above' ++ [name'], ?_⟩
    rw [hname'.parts_join, ← hx]
    exact follow_eq_ok hdirectories (entered_nil htop) htop' rfl hl'

/-! ### Making directories -/

theorem put_directory_top (htop : v.IsDirectory []) (l : Location) :
    (v.put l (.directory [])).IsDirectory [] := by
  obtain ⟨entries, hentries⟩ := htop
  have htop : v.top = .directory entries := Option.some.inj hentries
  rw [put, htop]
  match l with
  | [] => exact ⟨_, rfl⟩
  | [name] => exact ⟨_, rfl⟩
  | name :: n :: rest =>
    simp only [IsDirectory, entry?, List.foldl_nil, Entry.put]
    cases entries.lookup name with
    | none => exact ⟨_, rfl⟩
    | some e => exact ⟨_, rfl⟩

theorem makeDirectory_top (htop : v.IsDirectory []) (h : v.makeDirectory parts = .ok v') :
    v'.IsDirectory [] := by
  rw [makeDirectory] at h
  split at h
  · cases h
    exact put_directory_top htop _
  · cases h
  · cases h

theorem ensureDirectory_top (htop : v.IsDirectory []) (h : v.ensureDirectory parts = .ok v') :
    v'.IsDirectory [] := by
  rw [ensureDirectory] at h
  split at h
  · next hmake =>
    cases h
    exact makeDirectory_top htop hmake
  · split at h
    · cases h
      exact htop
    · cases h

theorem ensureAll_top {fuel : Nat} (htop : v.IsDirectory []) (h : ensureAll fuel v parts = .ok v') :
    v'.IsDirectory [] := by
  induction fuel generalizing v v' parts with
  | zero =>
    cases h
    exact htop
  | succ fuel ih =>
    rw [ensureAll] at h
    split at h
    · obtain ⟨above, habove, h⟩ := Schema.bind_eq_ok_iff.1 h
      exact ensureDirectory_top (ih htop habove) h
    · exact ensureDirectory_top htop h

theorem makeDirectories_top {path : String} (htop : v.IsDirectory [])
    (h : v.makeDirectories path = .ok v') : v'.IsDirectory [] := by
  obtain ⟨-, -, h⟩ := Schema.bind_eq_ok_iff.1 h
  exact ensureAll_top htop h

end Volume

/-! ### Writing generated files -/

namespace WriteOutcome

/-- Some files have been written below a directory, and all of them hold their content. -/
structure Holding (o : WriteOutcome) (directory : String) (files : List GeneratedFile) : Prop where
  top : o.volume.IsDirectory []
  written : o.written = files.map fun f => Path.join directory f.path
  holds : ∀ f ∈ files, o.volume.Holds (Path.join directory f.path) f.content

variable {o : WriteOutcome} {directory : String} {f : GeneratedFile}
  {files done : List GeneratedFile}

/-- One more file is written, or it fails and nothing changes. -/
theorem Holding.step (h : o.Holding directory done) (hnone : o.failure = none)
    (hplain : ∀ d ∈ done ++ [f], Path.Plain d.path) (hnew : ∀ d ∈ done, d.path ≠ f.path) :
    ((o.step directory f).failure = none ∧ (o.step directory f).Holding directory (done ++ [f])) ∨
      ((o.step directory f).failure ≠ none ∧ (o.step directory f).Holding directory done) := by
  rw [WriteOutcome.step, hnone]
  dsimp only
  split
  · next v hwrite =>
    obtain ⟨htop, hholds, hothers⟩ := Volume.write_name (hplain f (by simp)) h.top hwrite
    refine .inl ⟨rfl, htop, by simp [h.written], fun d hd => ?_⟩
    rcases List.mem_append.1 hd with hd | hd
    · exact hothers _ _ _ (hplain d (List.mem_append_left _ hd)) (hnew d hd) (h.holds d hd)
    · obtain rfl := List.mem_singleton.1 hd
      exact hholds
  · exact .inr ⟨by simp, h.top, h.written, h.holds⟩

theorem foldl_step_of_failure (h : o.failure ≠ none) (files : List GeneratedFile) :
    files.foldl (step directory) o = o := by
  induction files with
  | nil => rfl
  | cons f files ih =>
    have hstep : o.step directory f = o := by
      rw [step]
      split
      · rfl
      · next hnone => exact absurd hnone h
    rw [List.foldl_cons, hstep, ih]

/-- The files that are written are the first ones, and all of them if nothing fails. -/
theorem Holding.foldl (h : o.Holding directory done) (hnone : o.failure = none)
    (hplain : ∀ f ∈ done ++ files, Path.Plain f.path)
    (hnodup : ((done ++ files).map GeneratedFile.path).Nodup) :
    ∃ first rest, files = first ++ rest ∧
      (files.foldl (WriteOutcome.step directory) o).Holding directory (done ++ first) ∧
      ((files.foldl (WriteOutcome.step directory) o).failure = none → rest = []) := by
  induction files generalizing o done with
  | nil => exact ⟨[], [], rfl, by simpa using h, fun _ => rfl⟩
  | cons f files ih =>
    have hsplit : done ++ f :: files = done ++ [f] ++ files := by simp
    rw [hsplit] at hplain hnodup
    have hnew : ∀ d ∈ done, d.path ≠ f.path := by
      rw [List.map_append, List.map_append, List.append_assoc, List.nodup_append] at hnodup
      exact fun d hd => hnodup.2.2 _ (List.mem_map_of_mem hd) _ List.mem_cons_self
    rw [List.foldl_cons]
    rcases h.step hnone (fun d hd => hplain d (List.mem_append_left _ hd)) hnew with
      ⟨hnone', hnext⟩ | ⟨hfailed, hsame⟩
    · obtain ⟨first, rest, rfl, hholding, hall⟩ := ih hnext hnone' hplain hnodup
      exact ⟨f :: first, rest, rfl, by simpa using hholding, hall⟩
    · rw [foldl_step_of_failure hfailed]
      exact ⟨[], f :: files, rfl, by simpa using hsame, fun hnone' => absurd hnone' hfailed⟩

end WriteOutcome

/-- Files with different plain names that are written below a directory hold their content, as far
as they are written. -/
theorem GeneratedCode.holding_writeTo (g : GeneratedCode) {v : Volume} (htop : v.IsDirectory [])
    (hplain : ∀ f ∈ g.files, Path.Plain f.path) (hnodup : (g.files.map GeneratedFile.path).Nodup)
    (root : String) :
    ∃ first rest, g.files = first ++ rest ∧
      (g.writeTo root v).Holding (g.directoryBelow root) first ∧
      ((g.writeTo root v).failure = none → rest = []) := by
  rw [writeTo]
  split
  · next v' hmake =>
    have hstart : WriteOutcome.Holding ⟨v', [], none⟩ (g.directoryBelow root) [] :=
      ⟨Volume.makeDirectories_top htop hmake, rfl, by simp⟩
    exact hstart.foldl rfl hplain hnodup
  · exact ⟨[], g.files, rfl, ⟨htop, rfl, by simp⟩, by simp⟩

end VersionedRecords
