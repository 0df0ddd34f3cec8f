import VersionedRecords.Source.Grammar.Type

/-!
The heads of functions.  A parameter of which only the type is given is written with an underscore for
its name.
-/

namespace VersionedRecords.Source.Rule

open Source.Tree (startsWith startsWord startsIdentifier next)

/-- The words in front of the name of a function.  Where `safe` allows it, a function may be called
safe; the result tells whether it is. -/
def functionWords (safe : Bool) : Rule Bool := do
  discard (word? ["const"])
  discard (word? ["async"])
  let isUnsafe ← word? ["unsafe"]
  let isSafe ← if safe && !isUnsafe then word? ["safe"] else pure false
  convention?
  word ["fn"]
  return isSafe

/-- The receiver of a method. -/
def receiver (g : Grammar) : Rule Unit := do
  if ← mark? "&" then
    discard lifetime?
    discard (word? ["mut"])
    word ["self"]
  else
    discard (word? ["mut"])
    word ["self"]
    if ← mark? ":" then discard (g.type true)

/-- A parameter of a function; the first may be a receiver.  The result tells whether another one may
follow. -/
def functionParameter (g : Grammar) (first : Bool) : Rule Bool := do
  discard (attributes g)
  if ← mark? "..." then return false
  if (← behind? (receiver g)).isSome then
    require first
    receiver g
    return true
  if ← sees fun ts => startsIdentifier ts && startsWith "<" (next ts) then
    write [.word "_", .mark ':' false]
  else
    discard g.pattern
    mark ":"
    if ← mark? "..." then return false
  discard (g.type true)
  return true

/-- The parameters of a function, up to `n`. -/
def functionParametersUpTo (g : Grammar) : Bool → Nat → Rule Unit
  | _, 0 => failure
  | first, n + 1 => do
    if (← rest).isEmpty then return
    let more ← functionParameter g first
    let separated ← mark? ","
    if more && separated then functionParametersUpTo g false n

/-- The head of a function.  The result tells whether it is called safe. -/
def signature (g : Grammar) (safe : Bool) : Rule Bool := do
  let isSafe ← functionWords safe
  discard identifier
  discard (parameters? g)
  within .round do functionParametersUpTo g true ((← rest).length + 1)
  result? g true
  discard (conditions? g)
  return isSafe

end VersionedRecords.Source.Rule
