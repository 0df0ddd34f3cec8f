import VersionedRecords.Source.Literal

/-!
Rules of a grammar over token trees.  A rule reads trees from the front of a list and writes trees
that stand for them.  Mostly these are the trees that it has read; where one thing may be spelled in
several ways, they are one of its spellings.
-/

namespace VersionedRecords.Source

/-- How far one has come. -/
structure Reading where
  /-- What is left to read. -/
  rest : List Tree
  /-- What has been written, the latest first. -/
  written : List Tree

/-- A rule may fail; what it gives besides the trees that it writes is up to the rule. -/
abbrev Rule := StateT Reading Option

namespace Rule

open Source.Tree (startsWith startsWord startsIdentifier startsLifetime)

variable {α : Type}

/-- What is left to read. -/
def rest : Rule (List Tree) := do return (← get).rest

/-- Whether what is left to read begins in a certain way. -/
def sees (p : List Tree → Bool) : Rule Bool := do return p (← rest)

/-- Goes on only if something holds. -/
def require (b : Bool) : Rule Unit := if b then return else failure

/-- Writes some trees. -/
def write (ts : List Tree) : Rule Unit :=
  modify fun s => { s with written := ts.reverseAux s.written }

/-! ### Tokens -/

/-- Reads some trees as they are. -/
def take (n : Nat) : Rule Unit := do
  let ts ← rest
  require (n ≤ ts.length)
  modify fun s => { s with rest := ts.drop n }
  write (ts.take n)

/-- Reads punctuation marks that are joined to each other. -/
def mark (s : String) : Rule Unit := do
  require (← sees (startsWith s))
  take s.length

/-- Reads punctuation marks if they are there. -/
def mark? (s : String) : Rule Bool := do
  let found ← sees (startsWith s)
  if found then take s.length
  return found

/-- Reads any word. -/
def anyWord : Rule String := do
  match ← rest with
  | .word w :: _ => take 1; return w
  | _ => failure

/-- Reads one of some words. -/
def word (words : List String) : Rule Unit := do
  require (← sees (startsWord words))
  take 1

/-- Reads one of some words if it is there. -/
def word? (words : List String) : Rule Bool := do
  let found ← sees (startsWord words)
  if found then take 1
  return found

/-- Reads an identifier. -/
def identifier : Rule String := do
  require (← sees startsIdentifier)
  anyWord

/-- Reads an identifier if it is there. -/
def identifier? : Rule Bool := do
  let found ← sees startsIdentifier
  if found then take 1
  return found

/-- Reads a lifetime. -/
def lifetime : Rule Unit := do
  require (← sees startsLifetime)
  take 2

/-- Reads a lifetime if it is there. -/
def lifetime? : Rule Bool := do
  let found ← sees startsLifetime
  if found then take 2
  return found

/-- Reads a group as it is, whatever it holds. -/
def anyGroup : Rule Bracket := do
  match ← rest with
  | .group b _ :: _ => take 1; return b
  | _ => failure

/-- Reads a group in round brackets as it is. -/
def arguments : Rule Unit := do
  require ((← anyGroup) = .round)

/-! ### Combinations -/

/-- Reads a group all of whose content obeys a rule. -/
def within (b : Bracket) (r : Rule α) : Rule α := fun s =>
  match s.rest with
  | .group b' content :: rest => do
    let (a, inner) ← r ⟨content, []⟩
    if b = b' ∧ inner.rest.isEmpty then
      some (a, ⟨rest, .group b inner.written.reverse :: s.written⟩)
    else none
  | _ => none

/-- Obeys a rule, and gives what it writes instead of writing it. -/
def apart (r : Rule α) : Rule (α × List Tree) := fun s => do
  let (a, s') ← r ⟨s.rest, []⟩
  return ((a, s'.written.reverse), ⟨s'.rest, s.written⟩)

/-- Obeys a rule and writes what has been read as it is if `p` says so. -/
def asRead (p : α → Bool) (r : Rule α) : Rule α := fun s => do
  let (a, s') ← r s
  if p a then
    let read := s.rest.take (s.rest.length - s'.rest.length)
    return (a, ⟨s'.rest, read.reverseAux s.written⟩)
  else return (a, s')

/-- What would follow if a rule were obeyed, if it can be; nothing is read. -/
def behind? (r : Rule α) : Rule (Option (List Tree)) := fun s => some ((r s).map (·.2.rest), s)

/-- Obeys a rule up to `n` times, as long as it says so. -/
def times : Nat → Rule Bool → Rule Unit
  | 0, _ => failure
  | n + 1, r => do if ← r then times n r

/-- Obeys a rule as long as it says so.  It has to read something each time. -/
def repeatedly (r : Rule Bool) : Rule Unit := do times ((← rest).length + 1) r

/-- Reads a list of up to `n` entries. -/
def listUpTo (separator : String) (ends : List Tree → Bool) (r : Rule α) : Nat → Rule (List α)
  | 0 => failure
  | n + 1 => do
    if ← sees ends then return []
    let a ← r
    if ← mark? separator then return a :: (← listUpTo separator ends r n)
    return [a]

/-- Reads entries with separators between them, up to what ends the list or an entry without a
separator behind it. -/
def list (separator : String) (ends : List Tree → Bool) (r : Rule α) : Rule (List α) := do
  listUpTo separator ends r ((← rest).length + 1)

/-- Reads all that is left as entries with commas between them. -/
def commas (r : Rule α) : Rule (List α) := list "," List.isEmpty r

/-- Reads some trees, and gives what a rule says of them, what it has written and what is left. -/
def run (r : Rule α) (ts : List Tree) : Option (α × List Tree × List Tree) := do
  let (a, s) ← StateT.run r ⟨ts, []⟩
  return (a, s.written.reverse, s.rest)

/-- What a rule says of some trees if it reads them all. -/
def whole? (r : Rule α) (ts : List Tree) : Option α := do
  let (a, s) ← StateT.run r ⟨ts, []⟩
  if s.rest.isEmpty then return a else none

end Rule

end VersionedRecords.Source
