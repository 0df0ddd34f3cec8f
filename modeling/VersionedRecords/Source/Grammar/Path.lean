import VersionedRecords.Source.Grammar.Attribute

/-!
Paths and the arguments of their parts.  Among arguments in angle brackets the lifetimes are written
first; a double colon in front of arguments in round brackets is not written.
-/

namespace VersionedRecords.Source.Rule

open Source.Tree (startsWith startsWord startsGroup startsIdentifier startsLifetime next)

/-! ### Arguments -/

/-- Whether a value stands among the arguments of a path. -/
def startsConstant (ts : List Tree) : Bool := startsLiteral ts || startsGroup .brace ts

/-- A value that a parameter may have: a literal, a name or a block. -/
def constant (g : Grammar) : Rule Unit := do
  if ← sees startsLiteral then literal
  else if !(← identifier?) then attributedBlock g

/-- An argument that begins like a type.  It may also say what an associated item is, or what its
bounds are. -/
def typeArgument (g : Grammar) : Rule Argument := do
  let (form, written) ← apart (g.type true)
  write written
  if form.isName then
    if ← mark? "=" then
      if ← sees startsConstant then constant g else discard (g.type true)
      return .other
    if ← mark? ":" then
      boundsUpTo g .parameter fun ts => startsWith "," ts || startsWith ">" ts
      return .other
  return .type written

/-- An argument in angle brackets. -/
def argument (g : Grammar) : Rule Argument := do
  let ts ← rest
  if startsLifetime ts && !startsWith "+" (next ts) then
    lifetime
    return .lifetime
  else if startsConstant ts then
    constant g
    return .other
  else typeArgument g

/-- Arguments in angle brackets. -/
def angleArguments (g : Grammar) : Rule (List Argument) :=
  angleList Argument.isLifetime (argument g)

/-- The result of a function behind an arrow, if there is one. -/
def result? (g : Grammar) (plus : Bool) : Rule Unit := do
  if ← mark? "->" then discard (g.type plus)

/-- Arguments in round brackets, with a result behind them.  A double colon may stand in front; it
is not written. -/
def roundArguments (g : Grammar) : Rule Unit := do
  discard (apart (mark? "::"))
  discard (within .round (commas (g.type true)))
  result? g false

/-- Whether arguments in round brackets stand here. -/
def startsRoundArguments (ts : List Tree) : Bool :=
  startsGroup .round ts || (startsWith "::" ts && startsGroup .round (ts.drop 2))

/-! ### Paths -/

/-- A part of a path.  In expressions and patterns a double colon stands in front of the arguments.
-/
def pathPart (g : Grammar) (inExpression : Bool) : Rule PathEnd := do
  if ← sees (startsWord ["super", "self", "crate", "try"]) then return ⟨← anyWord, none⟩
  require (← sees fun ts => startsWord ["Self"] ts || startsIdentifier ts)
  let name ← anyWord
  let ts ← rest
  if (!inExpression && startsMark "<" ["<=", "<<="] ts)
      || (startsWith "::" ts && startsWith "<" (ts.drop 2)) then
    discard (mark? "::")
    return ⟨name, some (← angleArguments g)⟩
  return ⟨name, none⟩

/-- The parts of a path that follow those of `form`; not more than `n`. -/
def morePartsUpTo (g : Grammar) (inExpression : Bool) : Nat → PathForm → Rule PathForm
  | 0, _ => failure
  | n + 1, form => do
    let ts ← rest
    if startsWith "::" ts && !startsGroup .round (ts.drop 2) then
      mark "::"
      let last ← pathPart g inExpression
      morePartsUpTo g inExpression n ⟨false, form.bare && last.arguments.isNone, last⟩
    else return form

/-- The parts of a path that follow those of `form`. -/
def moreParts (g : Grammar) (inExpression : Bool) (form : PathForm) : Rule PathForm := do
  morePartsUpTo g inExpression ((← rest).length + 1) form

/-- A path. -/
def path (g : Grammar) (inExpression : Bool) : Rule PathForm := do
  let isGlobal ← mark? "::"
  let first ← pathPart g inExpression
  moreParts g inExpression ⟨!isGlobal, first.arguments.isNone, first⟩

/-- A path below a type in angle brackets, which may be seen as some trait. -/
def pathBelowType (g : Grammar) (inExpression : Bool) : Rule PathForm := do
  mark "<"
  discard (g.type true)
  if ← word? ["as"] then discard (path g false)
  mark ">"
  mark "::"
  let last ← pathPart g inExpression
  let form ← moreParts g inExpression ⟨false, false, last⟩
  require !(← sees (startsWith "::"))
  return form

/-- A path that may be below a type; the first result tells whether it is. -/
def anyPath (g : Grammar) (inExpression : Bool) : Rule (Bool × PathForm) := do
  if ← sees (startsWith "<") then return (true, ← pathBelowType g inExpression)
  return (false, ← path g inExpression)

end VersionedRecords.Source.Rule
