import VersionedRecords.Schema.Names
import VersionedRecords.Text.Blank

/-!
Type expressions: how the type of a field is written in a schema.  It is a name, a set of something,
or a map from something to something; blanks may stand around every part.
-/

namespace VersionedRecords

inductive TypeExpression
  | name (text : String)
  | set (element : TypeExpression)
  | map (key value : TypeExpression)
deriving DecidableEq, Repr

namespace TypeExpression

/-- What stands between the angle brackets, if a text is the given word with one pair of brackets
behind it. -/
def bracketed? (word : String) (s : List Char) : Option (List Char) :=
  if word.toList.isPrefixOf s then
    match Text.trimStart (s.drop word.toList.length) with
    | '<' :: rest => if rest.getLast? = some '>' then some rest.dropLast else none
    | _ => none
  else none

/-- Cuts a text at the first comma that stands in no more than `depth` pairs of brackets.  There is
none if a bracket is closed that was not opened. -/
def cutAtComma? (depth : Nat) : List Char → Option (List Char × List Char)
  | [] => none
  | c :: rest =>
    if c = ',' ∧ depth = 0 then some ([], rest)
    else if c = '>' ∧ depth = 0 then none
    else
      let depth := if c = '<' then depth + 1 else if c = '>' then depth - 1 else depth
      (cutAtComma? depth rest).map fun p => (c :: p.1, p.2)

theorem length_trimStart_le (s : List Char) : (Text.trimStart s).length ≤ s.length := by
  induction s with
  | nil => simp [Text.trimStart]
  | cons c s ih =>
    simp only [Text.trimStart, List.dropWhile] at ih ⊢
    split <;> simp_all; omega

theorem length_trim_le (s : List Char) : (Text.trim s).length ≤ s.length := by
  have h (s : List Char) : (Text.trimEnd s).length ≤ s.length := by
    have := length_trimStart_le s.reverse
    simpa [Text.trimEnd, Text.trimStart] using this
  exact Nat.le_trans (h _) (length_trimStart_le s)

theorem length_lt_of_bracketed? {word : String} {s inner : List Char}
    (h : bracketed? word s = some inner) : inner.length < s.length := by
  unfold bracketed? at h
  split at h <;> try simp at h
  split at h <;> try simp at h
  next rest hr =>
    obtain ⟨_, rfl⟩ := h
    have := length_trimStart_le (s.drop word.toList.length)
    rw [hr] at this
    simp only [List.length_cons, List.length_drop, List.length_dropLast] at this ⊢
    omega

theorem length_lt_of_cutAtComma? {depth : Nat} {s : List Char} {p : List Char × List Char}
    (h : cutAtComma? depth s = some p) : p.1.length < s.length ∧ p.2.length < s.length := by
  induction s generalizing depth p with
  | nil => simp [cutAtComma?] at h
  | cons c rest ih =>
    unfold cutAtComma? at h
    split at h
    · cases h; simp
    · split at h
      · simp at h
      · obtain ⟨q, hq, rfl⟩ := Option.map_eq_some_iff.1 h
        have := ih hq
        simp only [List.length_cons]
        omega

/-- Reads a type expression. -/
def parse? (s : List Char) : Option TypeExpression :=
  match _hs : bracketed? "Set" (Text.trim s) with
  | some inner => (parse? inner).map set
  | none =>
    match _hm : bracketed? "Map" (Text.trim s) with
    | some inner =>
      match _hc : cutAtComma? 0 inner with
      | some (k, v) => do return map (← parse? k) (← parse? v)
      | none => none
    | none =>
      if Schema.isIdentifier (Text.trim s) then some (name (String.ofList (Text.trim s))) else none
termination_by s.length
decreasing_by
  · have := length_lt_of_bracketed? _hs
    have := length_trim_le s
    omega
  · have := length_lt_of_bracketed? _hm
    have := length_trim_le s
    have := (length_lt_of_cutAtComma? _hc).1
    simp only at this
    omega
  · have := length_lt_of_bracketed? _hm
    have := length_trim_le s
    have := (length_lt_of_cutAtComma? _hc).2
    simp only at this
    omega

/-- The name, where the expression is nothing else. -/
def name? : TypeExpression → Option String
  | name text => some text
  | _ => none

end TypeExpression

end VersionedRecords
