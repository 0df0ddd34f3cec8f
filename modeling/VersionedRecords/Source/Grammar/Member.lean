import VersionedRecords.Source.Grammar.Function
import VersionedRecords.Source.Grammar.Struct

/-!
What traits, implementations and foreign items are made of: functions, constants, types and macros.
A member that the language itself refuses later keeps its spelling.
-/

namespace VersionedRecords.Source.Rule

open Source.Tree (startsWith startsWord startsGroup startsIdentifier next)

/-! ### Beginnings -/

/-- Whether a function stands here. -/
def startsFunction (safe : Bool) (ts : List Tree) : Bool := (run (functionWords safe) ts).isSome

/-- Whether the path of a macro may stand here. -/
def startsMacroPath (ts : List Tree) : Bool :=
  startsIdentifier ts || startsWord ["self", "super", "crate"] ts || startsWith "::" ts

/-- Whether there is a visibility, and what follows it; nothing is read. -/
def behindVisibility : Rule (Bool × List Tree) := do
  match ← behind? visibility? with
  | some ts => return (← sees (startsWord ["pub"]), ts)
  | none => failure

/-! ### Parts -/

/-- The end of a macro: a semicolon unless the arguments are in braces. -/
def endMacro (bracket : Bracket) : Rule Unit := if bracket = .brace then return else mark ";"

/-- A macro inside a trait or an implementation. -/
def memberMacro : Rule Unit := do
  discard plainPath
  endMacro (← macroArguments)

/-- Braces with attributes of their own, and with parts up to the end. -/
def body (g : Grammar) (part : Rule Unit) : Rule Unit :=
  within .brace do
    innerAttributes g
    repeatedly do
      if (← rest).isEmpty then return false
      part
      return true

/-- A name, or an underscore in its place. -/
def nameOrOpen : Rule Unit := do
  if !(← word? ["_"]) then discard identifier

/-- Whether a semicolon stands in the place of the body of a function. -/
def bodyLacks (g : Grammar) : Rule Bool := do
  if ← mark? ";" then return true
  attributedBlock g
  return false

/-- A constant with a name and a type.  The first result tells whether it has a value, the second
whether it has parameters or conditions. -/
def namedConstant (g : Grammar) : Rule (Bool × Bool) := do
  word ["const"]
  nameOrOpen
  let isGeneric ← sees (startsWith "<")
  discard (parameters? g)
  mark ":"
  discard (g.type true)
  let valued ← mark? "="
  if valued then discard (g.expression true)
  let conditional ← conditions? g
  mark ";"
  return (valued, isGeneric || conditional)

/-- Where the conditions of a type with a name may stand. -/
inductive ConditionPlace
  /-- In front of its value. -/
  | front
  /-- Behind its value. -/
  | behind
  | either
deriving DecidableEq

/-- The name of a type, with bounds and a value.  The results tell whether there is a colon and whether
there is a value. -/
def namedTypeItem (g : Grammar) (place : ConditionPlace) : Rule (Bool × Bool) := do
  word ["type"]
  discard identifier
  discard (parameters? g)
  let bounded ← sees (startsWith ":")
  colonBounds? <| boundsUpTo g .parameter fun ts =>
    startsWord ["where"] ts || startsWith "=" ts || startsWith ";" ts
  let conditional ← if place = .behind then pure false else conditions? g
  let valued ← mark? "="
  if valued then discard (g.type true)
  if place ≠ .front && !conditional then discard (conditions? g)
  mark ";"
  return (bounded, valued)

/-! ### Members -/

/-- A member of a trait.  With a visibility or a `default` it keeps its spelling. -/
def traitMember (g : Grammar) : Rule Unit := do
  discard <| asRead id do
    discard (attributes g)
    let isPublic ← visibility?
    let isDefault ← word? ["default"]
    let ts ← rest
    if startsFunction false ts then
      discard (signature g false)
      discard (bodyLacks g)
      return isPublic || isDefault
    else if startsWord ["const"] ts then
      let (_, isGeneric) ← namedConstant g
      return isPublic || isDefault || isGeneric
    else if startsWord ["type"] ts then
      discard (namedTypeItem g .behind)
      return isPublic || isDefault
    else
      require (!isPublic && !isDefault && startsMacroPath ts)
      memberMacro
      return false

/-- A member of an implementation. -/
def implementationMember (g : Grammar) : Rule Unit := do
  discard <| asRead id do
    discard (attributes g)
    let isPublic ← visibility?
    let isDefault ← sees fun ts => startsWord ["default"] ts && !startsWith "!" (next ts)
    if isDefault then word ["default"]
    let ts ← rest
    if startsFunction false ts then
      discard (signature g false)
      bodyLacks g
    else if startsWord ["const"] ts then
      let (valued, isGeneric) ← namedConstant g
      return !valued || isGeneric
    else if startsWord ["type"] ts then
      let (bounded, valued) ← namedTypeItem g .behind
      return bounded || !valued
    else
      require (!isPublic && !isDefault && startsMacroPath ts)
      memberMacro
      return false

/-- A function that is defined elsewhere.  One that is called safe or has a body keeps its spelling.
-/
def foreignFunction (g : Grammar) : Rule Bool := do
  discard visibility?
  let isSafe ← signature g true
  let lacks ← bodyLacks g
  return isSafe || !lacks

/-- A variable that is defined elsewhere.  One that is called safe or unsafe or has a value keeps its
spelling. -/
def foreignStatic (g : Grammar) : Rule Bool := do
  discard visibility?
  let isMarked ← word? ["unsafe", "safe"]
  word ["static"]
  discard (word? ["mut"])
  discard identifier
  mark ":"
  discard (g.type true)
  let valued ← mark? "="
  if valued then discard (g.expression true)
  mark ";"
  return isMarked || valued

/-- Something that is defined elsewhere. -/
def foreignMember (g : Grammar) : Rule Unit := do
  discard <| asRead id do
    discard (attributes g)
    let (isPublic, ts) ← behindVisibility
    if startsFunction true ts then foreignFunction g
    else if startsWord ["static"] ts
        || (startsWord ["unsafe", "safe"] ts && startsWord ["static"] (next ts)) then
      foreignStatic g
    else if startsWord ["type"] ts then
      discard visibility?
      let (bounded, valued) ← namedTypeItem g .either
      return bounded || valued
    else
      require (!isPublic && startsMacroPath ts)
      memberMacro
      return false

end VersionedRecords.Source.Rule
