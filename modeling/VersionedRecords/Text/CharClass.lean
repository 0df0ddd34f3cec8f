/-!
Classes of characters given by a table of boundaries: an ascending list in which the class starts at
the first entry, stops before the second, starts again at the third, and so on.  The tables of the
Unicode properties used by the library live in the modules beside this one.
-/

namespace VersionedRecords.Text

/-- Whether `code` lies in the class with the given boundaries.  The class is entered at every entry
of odd rank and left at every entry of even rank, so only the number of boundaries at or below
`code` matters. -/
def inClass (boundaries : List Nat) (code : Nat) : Bool :=
  go false boundaries
where
  /-- `inside` says which side of the last boundary passed we are on. -/
  go (inside : Bool) : List Nat → Bool
    | [] => inside
    | b :: rest => if code < b then inside else go (!inside) rest

theorem inClass_nil (code : Nat) : inClass [] code = false := rfl

theorem inClass_eq_false_of_lt {b code : Nat} {rest : List Nat} (h : code < b) :
    inClass (b :: rest) code = false := by
  simp [inClass, inClass.go, h]

end VersionedRecords.Text
