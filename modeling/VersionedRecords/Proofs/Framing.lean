import VersionedRecords.Proofs.Fingerprint

/-!
Framing: what is written out of a shape says which fields it has.

Nothing stands between the texts that are written out, and their number is not written at all.  But
every text has its length in front, in two bytes, so it ends before the next one begins, and a list
of fields is read off its bytes from the front.  That gives the fields in order, and so the shape up
to the order of its fields.  What the digest makes of the bytes is another matter: shapes with
different fields have the same fingerprint exactly if the first bytes of their digests collide.
-/

namespace VersionedRecords

namespace Sha256

theorem bigEndian_succ (count n : Nat) : bigEndian (count + 1) n =
    UInt8.ofNat (n / 256 ^ count % 256) :: bigEndian count n := rfl

theorem length_bigEndian (count n : Nat) : (bigEndian count n).length = count := by
  induction count with
  | zero => rfl
  | succ count ih => rw [bigEndian_succ, List.length_cons, ih]

/-- The bytes of a number give back as much of it as fits into them. -/
theorem mod_eq_of_bigEndian_eq {count n m : Nat} (h : bigEndian count n = bigEndian count m) :
    n % 256 ^ count = m % 256 ^ count := by
  induction count with
  | zero => rw [Nat.pow_zero, Nat.mod_one, Nat.mod_one]
  | succ count ih =>
    rw [bigEndian_succ, bigEndian_succ, List.cons.injEq] at h
    have hfirst := congrArg UInt8.toNat h.1
    rw [UInt8.toNat_ofNat', UInt8.toNat_ofNat', Nat.mod_mod, Nat.mod_mod] at hfirst
    rw [Nat.mod_pow_succ, Nat.mod_pow_succ, ih h.2, hfirst]

theorem bigEndian_inj {count n m : Nat} (hn : n < 256 ^ count) (hm : m < 256 ^ count)
    (h : bigEndian count n = bigEndian count m) : n = m := by
  rw [← Nat.mod_eq_of_lt hn, mod_eq_of_bigEndian_eq h, Nat.mod_eq_of_lt hm]

theorem length_digest (message : List UInt8) : (digest message).length = 32 := by
  simp [digest, State.toBytes, length_bigEndian]

end Sha256

namespace Fingerprint

/-- The text is written out to its last byte. -/
def IsShort (s : String) : Prop := s.utf8ByteSize ≤ byteLimit

/-- All fields of the shape are written out to their last byte. -/
def Short (shape : Shape) : Prop := ∀ field ∈ shape, IsShort field.1 ∧ IsShort field.2

/-- The digests of two messages begin with the same eight bytes, though the messages differ. -/
def Collide (message message' : List UInt8) : Prop :=
  message ≠ message' ∧ (Sha256.digest message).take 8 = (Sha256.digest message').take 8

/-! ### Texts and fields -/

section Frames

variable {s t : String} {rest rest' : List UInt8}

theorem frame_eq (hs : IsShort s) :
    frame s = Sha256.bigEndian 2 s.utf8ByteSize ++ s.toUTF8.data.toList := by
  have hlength : s.toUTF8.data.toList.length = s.utf8ByteSize := rfl
  have hwhole : s.toUTF8.data.toList.take byteLimit = s.toUTF8.data.toList :=
    List.take_of_length_le (Nat.le_trans (Nat.le_of_eq hlength) hs)
  simp only [frame, hwhole, hlength]

/-- A text ends before what follows it begins. -/
theorem frame_append_inj (hs : IsShort s) (ht : IsShort t)
    (h : frame s ++ rest = frame t ++ rest') : s = t ∧ rest = rest' := by
  have hlimit {u : String} (hu : IsShort u) : u.utf8ByteSize < 256 ^ 2 := Nat.lt_succ_of_le hu
  rw [frame_eq hs, frame_eq ht, List.append_assoc, List.append_assoc] at h
  have hwidth : (Sha256.bigEndian 2 s.utf8ByteSize).length =
      (Sha256.bigEndian 2 t.utf8ByteSize).length := by
    rw [Sha256.length_bigEndian, Sha256.length_bigEndian]
  obtain ⟨hfront, hbehind⟩ := List.append_inj h hwidth
  have hsize : s.utf8ByteSize = t.utf8ByteSize :=
    Sha256.bigEndian_inj (hlimit hs) (hlimit ht) hfront
  obtain ⟨hbytes, hrest⟩ := List.append_inj hbehind hsize
  exact ⟨String.toByteArray_inj.1 (ByteArray.ext (Array.toList_inj.1 hbytes)), hrest⟩

theorem frameField_append_inj {field field' : String × String}
    (hfield : IsShort field.1 ∧ IsShort field.2) (hfield' : IsShort field'.1 ∧ IsShort field'.2)
    (h : frameField field ++ rest = frameField field' ++ rest') :
    field = field' ∧ rest = rest' := by
  rw [frameField, frameField, List.append_assoc, List.append_assoc] at h
  obtain ⟨hname, hbehind⟩ := frame_append_inj hfield.1 hfield'.1 h
  obtain ⟨htype, hrest⟩ := frame_append_inj hfield.2 hfield'.2 hbehind
  exact ⟨Prod.ext hname htype, hrest⟩

/-- A field is at least its two lengths. -/
theorem frameField_ne_nil (field : String × String) : frameField field ≠ [] := by
  simp [frameField, frame, Sha256.bigEndian_succ]

/-- Fields that are written one after the other are read off from the front. -/
theorem flatMap_frameField_inj {fields fields' : Shape} (hfields : Short fields)
    (hfields' : Short fields') (h : fields.flatMap frameField = fields'.flatMap frameField) :
    fields = fields' := by
  induction fields generalizing fields' with
  | nil =>
    cases fields' with
    | nil => rfl
    | cons field' fields' => simp [frameField_ne_nil] at h
  | cons field fields ih =>
    cases fields' with
    | nil => simp [frameField_ne_nil] at h
    | cons field' fields' =>
      obtain ⟨hfield, hothers⟩ := List.forall_mem_cons.1 hfields
      obtain ⟨hfield', hothers'⟩ := List.forall_mem_cons.1 hfields'
      rw [List.flatMap_cons, List.flatMap_cons] at h
      obtain ⟨hfirst, hbehind⟩ := frameField_append_inj hfield hfield' h
      rw [hfirst, ih hothers hothers' hbehind]

end Frames

/-! ### Shapes and fingerprints -/

section Shapes

variable {shape shape' : Shape}

theorem perm_of_stream_eq (h : Short shape) (h' : Short shape')
    (heq : stream shape = stream shape') : shape.Perm shape' := by
  have hsorted (s : Shape) : (s.mergeSort fun a b => !precedes b a).Perm s :=
    List.mergeSort_perm s _
  have hshort {s : Shape} (hs : Short s) : Short (s.mergeSort fun a b => !precedes b a) :=
    fun field hfield => hs field ((hsorted s).mem_iff.1 hfield)
  have hfields := flatMap_frameField_inj (hshort h) (hshort h') heq
  exact (hsorted shape).symm.trans (hfields ▸ hsorted shape')

/-- A number is known by its bytes. -/
theorem littleEndian_inj {bytes bytes' : List UInt8} (hlength : bytes.length = bytes'.length)
    (h : littleEndian bytes = littleEndian bytes') : bytes = bytes' := by
  induction bytes generalizing bytes' with
  | nil => exact (List.length_eq_zero_iff.1 hlength.symm).symm
  | cons b bytes ih =>
    cases bytes' with
    | nil => cases hlength
    | cons b' bytes' =>
      have hb : b.toNat < 256 := b.toNat_lt
      have hb' : b'.toNat < 256 := b'.toNat_lt
      rw [littleEndian, littleEndian] at h
      have hfirst : b = b' := UInt8.toNat_inj.1 (by omega)
      rw [hfirst, ih (Nat.succ.inj hlength) (by omega)]

theorem ofShape_eq_iff : ofShape shape = ofShape shape' ↔
    (Sha256.digest (stream shape)).take 8 = (Sha256.digest (stream shape')).take 8 := by
  refine ⟨littleEndian_inj ?_, congrArg littleEndian⟩
  rw [List.length_take, List.length_take, Sha256.length_digest, Sha256.length_digest]

/-- Shapes are written out as the same bytes exactly if they have the same fields, each as often.
So they have the same fingerprint only then, or else if what is written out of them collides. -/
theorem stream_eq_iff_perm (h : Short shape) (h' : Short shape') :
    (stream shape = stream shape' ↔ shape.Perm shape') ∧
      (ofShape shape = ofShape shape' ↔
        shape.Perm shape' ∨ Collide (stream shape) (stream shape')) := by
  have hiff : stream shape = stream shape' ↔ shape.Perm shape' :=
    ⟨perm_of_stream_eq h h', stream_congr⟩
  refine ⟨hiff, ?_⟩
  constructor
  · intro heq
    by_cases hsame : stream shape = stream shape'
    · exact .inl (hiff.1 hsame)
    · exact .inr ⟨hsame, ofShape_eq_iff.1 heq⟩
  · rintro (hperm | hcollide)
    · exact ofShape_congr hperm
    · exact ofShape_eq_iff.2 hcollide.2

/-- A name that looks like the length of an empty text and a text of one byte does not hide where
the fields end, and a field that is there twice counts twice. -/
theorem stream_eq_iff_perm_of_disguised :
    Short [("", "\x00\x00\x00\x01a"), ("", "")] ∧ Short [("", ""), ("", "a"), ("", "")] ∧
      stream [("", "\x00\x00\x00\x01a"), ("", "")] ≠ stream [("", ""), ("", "a"), ("", "")] ∧
      stream [("", ""), ("", "a"), ("", "")] = stream [("", "a"), ("", ""), ("", "")] := by
  have hone : Short [("", "\x00\x00\x00\x01a"), ("", "")] := by
    simp only [Short, IsShort]
    decide
  have htwo : Short [("", ""), ("", "a"), ("", "")] := by
    simp only [Short, IsShort]
    decide
  have hthree : Short [("", "a"), ("", ""), ("", "")] := by
    simp only [Short, IsShort]
    decide
  refine ⟨hone, htwo, fun heq => ?_, (stream_eq_iff_perm htwo hthree).1.2 (.swap ..)⟩
  exact absurd ((stream_eq_iff_perm hone htwo).1.1 heq).length_eq (by decide)

end Shapes

end Fingerprint

end VersionedRecords
