import VersionedRecords.Source.Grammar.Bound

/-!
Types.  What a quantifier in front of a macro introduces is not written; neither are the inner ones of
two pairs of brackets around the first of several bounds.
-/

namespace VersionedRecords.Source.Rule

open Source.Tree (startsWith startsWord startsGroup startsIdentifier startsLifetime next)

/-! ### Function types -/

/-- The convention by which a function is called, if there is one. -/
def convention? : Rule Unit := do
  if ← word? ["extern"] then
    if ← sees startsText then text

/-- Whether the rest of the arguments of a function is left open here. -/
def startsOpenArguments (ts : List Tree) : Bool :=
  startsWith "..." ts
    || ((startsIdentifier ts || startsWord ["_"] ts) && startsWith ":" (next ts)
      && startsWith "..." (next (next ts)))

/-- Three dots for the rest of the arguments of a function, perhaps with a name; nothing follows. -/
def openArguments : Rule Unit := do
  if !(← sees (startsWith "...")) then
    discard anyWord
    mark ":"
  mark "..."
  discard (mark? ",")
  require (← rest).isEmpty

/-- Whether an argument of a function type begins with a name.  The first may be the receiver. -/
def startsNamedArgument (first : Bool) (ts : List Tree) : Bool :=
  (startsIdentifier ts || startsWord (if first then ["_", "self"] else ["_"]) ts)
    && startsColon (next ts)

/-- Whether a changeable receiver stands here. -/
def startsChangeableReceiver (ts : List Tree) : Bool :=
  startsWord ["mut"] ts && startsWord ["self"] (next ts)

/-- An argument of a function type.  A changeable receiver keeps its spelling. -/
def functionArgument (g : Grammar) (first : Bool) : Rule Unit := do
  discard <| asRead id do
    let changeable := first && (← sees startsChangeableReceiver)
    if changeable then word ["mut"]
    let ts ← rest
    let named := startsNamedArgument first ts
    if named then
      discard anyWord
      mark ":"
    let behindSelf := named && startsWord ["self"] ts
    if first && !behindSelf && (← sees startsChangeableReceiver) then
      take 2
      return true
    else if changeable && !named then
      word ["self"]
      return true
    else
      discard (g.type true)
      return changeable

/-- The arguments of a function type, up to `n`. -/
def functionArgumentsUpTo (g : Grammar) : Bool → Nat → Rule Unit
  | _, 0 => failure
  | first, n + 1 => do
    if (← rest).isEmpty then return
    discard (attributes g)
    if ← sees startsOpenArguments then openArguments
    else
      functionArgument g first
      if ← mark? "," then functionArgumentsUpTo g false n

/-- A function type, without the parameters that it is quantified over. -/
def functionType (g : Grammar) : Rule Unit := do
  discard (word? ["unsafe"])
  convention?
  word ["fn"]
  within .round do functionArgumentsUpTo g true ((← rest).length + 1)
  result? g false

/-! ### Brackets -/

/-- The content of round brackets in a type. -/
inductive RoundContent
  /-- Nothing, or types with commas. -/
  | tuple
  /-- A trait that is not required. -/
  | optionalTrait
  | type (form : TypeForm)

/-- The content of round brackets in a type. -/
def roundContent (g : Grammar) : Rule RoundContent := do
  let ts ← rest
  if ts.isEmpty then return .tuple
  else if startsLifetime ts then
    discard (traits g .object true)
    return .type .other
  else if startsWith "?" ts then
    discard (traitBound g .object)
    return .optionalTrait
  else
    let form ← g.type true
    if ← mark? "," then
      discard (commas (g.type true))
      return .tuple
    return .type form

/-- Bounds that are added to what has been read; the result tells whether there are any. -/
def addedBounds (g : Grammar) : Rule Bool := do
  let found ← sees (startsWith "+")
  repeatedly do
    if ← mark? "+" then
      discard (bound g .object)
      return true
    else return false
  return found

/-- The brackets that a bound in brackets keeps: the inner ones, if there are two pairs. -/
def innermost : List Tree → List Tree
  | [.group .round [.group .round content]] => [.group .round content]
  | ts => ts

/-- A type that begins with round brackets. -/
def roundType (g : Grammar) (plus : Bool) : Rule TypeForm := do
  let (content, written) ← apart (within .round (roundContent g))
  let more ← if plus then sees (startsWith "+") else pure false
  match content with
  | .optionalTrait =>
    write written
    return if ← addedBounds g then .other else .bound true
  | .type (.path _) | .type (.bound false) =>
    write written
    if more then discard (addedBounds g)
  | .type (.bound true) =>
    write (if more then innermost written else written)
    if more then discard (addedBounds g)
  | _ => write written
  return .other

/-- A type in square brackets: some number of values of a type. -/
def squareType (g : Grammar) : Rule Unit :=
  within .square do
    discard (g.type true)
    if ← mark? ";" then discard (g.expression true)

/-! ### Types -/

/-- Bounds that are added to a path; a plus sign may stand behind the last. -/
def trailingBounds (g : Grammar) : Rule Unit :=
  repeatedly do
    if ← mark? "+" then
      let more ← sees (startsBound .object)
      if more then discard (bound g .object)
      return more
    else return false

/-- A type that begins with a path.  `quantified` holds the parameters that have been read in front
of it, if there are any. -/
def namedType (g : Grammar) (plus : Bool) (quantified : List Tree) : Rule TypeForm := do
  let ((below, form), written) ← apart (anyPath g false)
  if below then
    write written
    return .other
  if form.bare && (← sees startsMacro) then
    write written
    discard macroArguments
    return .other
  write (quantified ++ written)
  let more ← if plus then sees (startsWith "+") else pure false
  if more then
    trailingBounds g
    return .other
  return if quantified.isEmpty then .path form else .bound false

/-- A type that begins with a mark or a bracket or with a word of its own. -/
def markedType (g : Grammar) (plus : Bool) : Rule TypeForm := do
  let ts ← rest
  if startsGroup .round ts then return ← roundType g plus
  else if startsGroup .square ts then squareType g
  else if startsWord ["dyn"] ts then
    discard <| asRead id do
      word ["dyn"]
      let starred ← mark? "*"
      discard (traits g .object plus)
      return starred
  else if ← mark? "*" then
    word ["const", "mut"]
    discard (g.type false)
  else if ← mark? "&" then
    discard lifetime?
    discard (word? ["mut"])
    discard (g.type false)
  else if ← mark? "!" then return .other
  else if ← word? ["impl"] then discard (traits g .opaqueType plus)
  else if ← word? ["_"] then return .other
  else
    require (startsLifetime ts)
    discard (traits g .object true)
  return .other

/-- A type. -/
def type (g : Grammar) (plus : Bool) : Rule TypeForm := do
  let (_, form) ← asRead Prod.fst do
    let (quantified, written) ← apart (quantifier? g)
    let ts ← rest
    if startsBuiltin ts then
      builtin
      return (true, .other)
    else if startsWord ["fn", "unsafe", "extern"] ts then
      write written
      functionType g
      return (false, .other)
    else if startsIdentifier ts || startsWord pathWords ts then
      return (false, ← namedType g plus written)
    else
      require !quantified
      return (false, ← if startsPath ts then namedType g plus [] else markedType g plus)
  return form

end VersionedRecords.Source.Rule
