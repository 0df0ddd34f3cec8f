import Mathlib.Algebra.Ring.Nat
import VersionedRecords.Description.Fingerprint

/-!
Fingerprints: words of 64 bits that do not depend on the order of the fields.

The fields are put into a total order before they are written out, so two shapes with the same fields
are written out as the same bytes.
-/

namespace VersionedRecords.Fingerprint

variable {a b c : String × String}

theorem precedes_total (h : a ≠ b) : precedes a b = true ∨ precedes b a = true := by
  obtain ⟨name, type⟩ := a
  obtain ⟨name', type'⟩ := b
  simp only [precedes, Bool.or_eq_true, Bool.and_eq_true, beq_iff_eq]
  by_cases hname : name = name'
  · subst hname
    have htype : Key.text type ≠ .text type' := by simpa using h
    exact (Key.precedes_total htype).imp (fun h => .inr ⟨rfl, h⟩) fun h => .inr ⟨rfl, h⟩
  · have hkey : Key.text name ≠ .text name' := by simpa using hname
    exact (Key.precedes_total hkey).imp .inl .inl

theorem precedes_trans (h : precedes a b = true) (h' : precedes b c = true) :
    precedes a c = true := by
  obtain ⟨name, type⟩ := a
  obtain ⟨name', type'⟩ := b
  obtain ⟨name'', type''⟩ := c
  simp only [precedes, Bool.or_eq_true, Bool.and_eq_true, beq_iff_eq] at h h' ⊢
  rcases h with h | ⟨rfl, h⟩
  · rcases h' with h' | ⟨rfl, -⟩
    · exact .inl (Key.precedes_trans h h')
    · exact .inl h
  · rcases h' with h' | ⟨rfl, h'⟩
    · exact .inl h'
    · exact .inr ⟨rfl, Key.precedes_trans h h'⟩

theorem precedes_irrefl (a : String × String) : precedes a a = false := by
  simp [precedes, Key.precedes_irrefl]

theorem precedes_asymm (h : precedes a b = true) : precedes b a = false := by
  cases hb : precedes b a with
  | false => rfl
  | true => exact (precedes_trans h hb).symm.trans (precedes_irrefl a)

/-- The order in which fields are sorted. -/
def notBehind (a b : String × String) : Bool := !precedes b a

theorem notBehind_iff : notBehind a b = true ↔ a = b ∨ precedes a b = true := by
  rw [notBehind, Bool.not_eq_true']
  constructor
  · intro h
    by_cases hab : a = b
    · exact .inl hab
    · exact .inr ((precedes_total hab).resolve_right (by simp [h]))
  · rintro (rfl | h)
    · exact precedes_irrefl _
    · exact precedes_asymm h

theorem notBehind_trans (a b c : String × String) (h : notBehind a b = true)
    (h' : notBehind b c = true) : notBehind a c = true := by
  rw [notBehind_iff] at h h' ⊢
  rcases h with rfl | h
  · exact h'
  · rcases h' with rfl | h'
    · exact .inr h
    · exact .inr (precedes_trans h h')

theorem notBehind_total (a b : String × String) : (notBehind a b || notBehind b a) = true := by
  rw [Bool.or_eq_true, notBehind_iff, notBehind_iff]
  by_cases hab : a = b
  · exact .inl (.inl hab)
  · exact (precedes_total hab).imp .inr .inr

theorem notBehind_antisymm (h : notBehind a b = true) (h' : notBehind b a = true) : a = b := by
  rcases notBehind_iff.1 h with hab | hab
  · exact hab
  · rw [notBehind, hab] at h'
    cases h'

variable {shape shape' : Shape}

/-- The same fields are written out in the same order. -/
theorem stream_congr (h : shape.Perm shape') : stream shape = stream shape' := by
  have hsorted (s : Shape) : (s.mergeSort notBehind).Pairwise fun a b => notBehind a b = true :=
    List.pairwise_mergeSort notBehind_trans notBehind_total s
  have hperm : (shape.mergeSort notBehind).Perm (shape'.mergeSort notBehind) :=
    (List.mergeSort_perm shape _).trans (h.trans (List.mergeSort_perm shape' _).symm)
  have heq : shape.mergeSort notBehind = shape'.mergeSort notBehind :=
    List.Perm.eq_of_pairwise (fun _ _ _ _ => notBehind_antisymm) (hsorted shape) (hsorted shape') hperm
  exact congrArg (List.flatMap frameField) heq

/-- A fingerprint does not depend on the order of the fields. -/
theorem ofShape_congr (h : shape.Perm shape') : ofShape shape = ofShape shape' := by
  rw [ofShape, ofShape, stream_congr h]

theorem littleEndian_lt (bytes : List UInt8) : littleEndian bytes < 256 ^ bytes.length := by
  induction bytes with
  | nil => decide
  | cons b bytes ih =>
    have hb : b.toNat < 256 := b.toNat_lt
    rw [littleEndian, List.length_cons, Nat.pow_succ]
    omega

/-- A fingerprint is a word of 64 bits. -/
theorem ofShape_lt (shape : Shape) : ofShape shape < 0x10000000000000000 := by
  have hlength : ((Sha256.digest (stream shape)).take 8).length ≤ 8 := List.length_take_le ..
  calc ofShape shape < 256 ^ ((Sha256.digest (stream shape)).take 8).length := littleEndian_lt _
    _ ≤ 256 ^ 8 := Nat.pow_le_pow_right (by decide) hlength
    _ = 0x10000000000000000 := by decide

end VersionedRecords.Fingerprint
