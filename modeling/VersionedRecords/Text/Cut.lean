/-!
Cutting a text at a number of bytes, as it is stored.  A cut that would go through a character is
refused.
-/

namespace VersionedRecords.Text

/-- What follows the first `n` bytes. -/
def dropBytes? (n : Nat) : List Char → Option (List Char)
  | [] => if n = 0 then some [] else none
  | c :: rest =>
    if n = 0 then some (c :: rest)
    else if c.utf8Size ≤ n then dropBytes? (n - c.utf8Size) rest
    else none

/-- The first `n` bytes. -/
def takeBytes? (n : Nat) : List Char → Option (List Char)
  | [] => if n = 0 then some [] else none
  | c :: rest =>
    if n = 0 then some []
    else if c.utf8Size ≤ n then (takeBytes? (n - c.utf8Size) rest).map (c :: ·)
    else none

/-- The bytes from the place `start` to the place `stop`. -/
def cut? (start stop : Nat) (s : List Char) : Option (List Char) :=
  dropBytes? start s >>= takeBytes? (stop - start)

theorem dropBytes?_zero (s : List Char) : dropBytes? 0 s = some s := by cases s <;> rfl

theorem takeBytes?_zero (s : List Char) : takeBytes? 0 s = some [] := by cases s <;> rfl

/-- The two parts of a text at a place make up the text. -/
theorem append_of_cut {n : Nat} {s front back : List Char} (hf : takeBytes? n s = some front)
    (hb : dropBytes? n s = some back) : front ++ back = s := by
  induction s generalizing n front with
  | nil =>
    simp only [takeBytes?, dropBytes?] at hf hb
    split at hf <;> simp_all
  | cons c rest ih =>
    by_cases h0 : n = 0
    · subst h0
      simp_all [takeBytes?, dropBytes?]
    · by_cases hc : c.utf8Size ≤ n
      · simp only [takeBytes?, dropBytes?, if_neg h0, if_pos hc] at hf hb
        obtain ⟨tail, ht, rfl⟩ := Option.map_eq_some_iff.1 hf
        rw [List.cons_append, ih ht hb]
      · simp [takeBytes?, if_neg h0, if_neg hc] at hf

/-- The first character of one of some kinds: what it is, how many bytes are in front of it, and what
follows.  `place` is the number of bytes in front of the text. -/
def seek? (kinds : List Char) (place : Nat) : List Char → Option (Char × Nat × List Char)
  | [] => none
  | c :: rest =>
    if kinds.contains c then some (c, place, rest) else seek? kinds (place + c.utf8Size) rest

end VersionedRecords.Text
