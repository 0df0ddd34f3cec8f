import VersionedRecords.Source.Grammar.Member

/-!
Items: functions, types, modules, traits and implementations.  Forms of an item that the language
itself refuses later keep their spelling; the rules for these tell whether they have found one.
-/

namespace VersionedRecords.Source.Rule

open Source.Tree (startsWith startsWord startsGroup startsIdentifier next)

/-! ### Functions, variables and types -/

/-- A function.  Without a body it keeps its spelling. -/
def function (g : Grammar) : Rule Bool := do
  discard visibility?
  discard (signature g false)
  bodyLacks g

/-- A constant.  Without a value, or with parameters or conditions, it keeps its spelling. -/
def constantItem (g : Grammar) : Rule Bool := do
  discard visibility?
  let (valued, isGeneric) ← namedConstant g
  return !valued || isGeneric

/-- A static variable.  Without a type or without a value it keeps its spelling. -/
def static (g : Grammar) : Rule Bool := do
  discard visibility?
  word ["static"]
  discard (word? ["mut"])
  discard identifier
  let typed ← mark? ":"
  if typed then discard (g.type true)
  let valued ← mark? "="
  require (typed || valued)
  if valued then discard (g.expression true)
  mark ";"
  return !(typed && valued)

/-- A variant of an enumeration.  A visibility in front of it is not written. -/
def variant (g : Grammar) : Rule Unit := do
  discard (attributes g)
  discard (apart visibility?)
  discard identifier
  let ts ← rest
  if startsGroup .brace ts then discard (namedFields g)
  else if startsGroup .round ts then unnamedFields g
  if ← mark? "=" then discard (g.expression true)

/-- An enumeration. -/
def enumeration (g : Grammar) : Rule Unit := do
  discard visibility?
  word ["enum"]
  discard identifier
  discard (parameters? g)
  discard (conditions? g)
  discard (within .brace (commas (variant g)))

/-- A union. -/
def union (g : Grammar) : Rule Unit := do
  discard visibility?
  word ["union"]
  discard identifier
  discard (parameters? g)
  discard (conditions? g)
  discard (namedFields g)

/-- Another name of a type.  With bounds or without a value it keeps its spelling. -/
def typeName (g : Grammar) : Rule Bool := do
  discard visibility?
  let (bounded, valued) ← namedTypeItem g .front
  return bounded || !valued

/-! ### Uses -/

/-- What is used; `depth` bounds the nesting.  Where `root` allows it, a path in braces may begin with
a double colon. -/
def useTree : Nat → Bool → Rule Unit
  | 0, _ => failure
  | depth + 1, root => do
    let ts ← rest
    if startsIdentifier ts || startsWord ["self", "super", "crate", "try"] ts then
      discard anyWord
      if ← mark? "::" then useTree depth false
      else if ← word? ["as"] then nameOrOpen
    else if startsGroup .brace ts then
      discard <| within .brace <| commas do
        let isRoot ← if root then mark? "::" else pure false
        useTree depth (root && !isRoot)
    else mark "*"

/-- A use of other items. -/
def use : Rule Unit := do
  discard visibility?
  word ["use"]
  let isRoot ← mark? "::"
  useTree ((Tree.allTokens (← rest)).length + 1) !isRoot
  mark ";"

/-- A use of another crate. -/
def externCrate : Rule Unit := do
  discard visibility?
  word ["extern"]
  word ["crate"]
  if !(← word? ["self"]) then discard identifier
  if ← word? ["as"] then nameOrOpen
  mark ";"

/-! ### Traits and implementations -/

/-- A trait with its members, or a name for some bounds. -/
def trait (g : Grammar) : Rule Unit := do
  discard visibility?
  let isUnsafe ← word? ["unsafe"]
  let isAuto ← word? ["auto"]
  word ["trait"]
  discard identifier
  discard (parameters? g)
  if !isUnsafe && !isAuto && (← mark? "=") then
    boundsUpTo g .parameter fun ts => startsWord ["where"] ts || startsWith ";" ts
    discard (conditions? g)
    mark ";"
  else
    colonBounds? <| boundsUpTo g .parameter fun ts =>
      startsWord ["where"] ts || startsGroup .brace ts
    discard (conditions? g)
    body g (traitMember g)

/-- An implementation.  With a visibility, for constant evaluation, or of something that is not a plain
path it keeps its spelling.  Only a trait can be implemented negatively. -/
def implementation (g : Grammar) : Rule Bool := do
  let isPublic ← visibility?
  discard (word? ["default"])
  discard (word? ["unsafe"])
  word ["impl"]
  if ← sees startsParameters then discard (parameters? g)
  let isConst ← sees fun ts =>
    startsWord ["const"] ts || (startsWith "?" ts && startsWord ["const"] (next ts))
  if isConst then
    discard (mark? "?")
    word ["const"]
  let isNegative ← sees fun ts => startsWith "!" ts && !startsGroup .brace (next ts)
  if isNegative then mark "!"
  let form ← g.type true
  let ofTrait ← word? ["for"]
  if ofTrait then discard (g.type true) else require !isNegative
  discard (conditions? g)
  body g (implementationMember g)
  return isPublic || isConst || (ofTrait && !form.isPath)

/-! ### Modules and macros -/

/-- Items that are defined elsewhere. -/
def foreignItems (g : Grammar) : Rule Unit := do
  discard (word? ["unsafe"])
  convention?
  body g (foreignMember g)

/-- A module with its items, or the name of one. -/
def moduleItem (g : Grammar) : Rule Unit := do
  discard visibility?
  discard (word? ["unsafe"])
  word ["mod"]
  if !(← word? ["try"]) then discard identifier
  if !(← mark? ";") then
    body g do
      discard <| asRead id do
        discard (attributes g)
        g.item

/-- A macro as an item, perhaps with a name of what it defines. -/
def itemMacro : Rule Unit := do
  discard plainPath
  mark "!"
  if !(← word? ["try"]) then discard identifier?
  endMacro (← anyGroup)

/-- The definition of a macro by its arguments and its content; it keeps its spelling. -/
def macroDefinition : Rule Unit := do
  discard visibility?
  word ["macro"]
  discard identifier
  if ← sees (startsGroup .round) then discard anyGroup
  require (← sees (startsGroup .brace))
  discard anyGroup

/-! ### Items -/

/-- Whether a trait stands here, which may be said to hold by itself. -/
def startsTrait (ts : List Tree) : Bool :=
  startsWord ["trait"] ts || (startsWord ["auto"] ts && startsWord ["trait"] (next ts))

/-- Obeys a rule for something that has only one spelling. -/
def onlySpelling (r : Rule Unit) : Rule Bool := do
  r
  return false

/-- An item that is marked as unsafe. -/
def unsafeItem (g : Grammar) (second : List Tree) : Rule Bool :=
  if startsTrait second then onlySpelling (trait g)
  else if startsWord ["impl"] second then implementation g
  else if startsWord ["extern"] second then onlySpelling (foreignItems g)
  else onlySpelling (moduleItem g)

/-- An item without its attributes; the result tells whether it keeps its spelling. -/
def item (g : Grammar) : Rule Bool := do
  let (isPublic, ts) ← behindVisibility
  let second := next ts
  if startsFunction false ts then function g
  else if startsWord ["extern"] ts then
    onlySpelling (if startsWord ["crate"] second then externCrate else foreignItems g)
  else if startsWord ["use"] ts then onlySpelling use
  else if startsWord ["static"] ts then static g
  else if startsWord ["const"] ts then constantItem g
  else if startsWord ["unsafe"] ts then unsafeItem g second
  else if startsWord ["mod"] ts then onlySpelling (moduleItem g)
  else if startsWord ["type"] ts then typeName g
  else if startsWord ["struct"] ts then onlySpelling (discard (struct g []))
  else if startsWord ["enum"] ts then onlySpelling (enumeration g)
  else if startsWord ["union"] ts && startsIdentifier second then onlySpelling (union g)
  else if startsTrait ts then onlySpelling (trait g)
  else if startsWord ["impl"] ts || (startsWord ["default"] ts && !startsWith "!" second) then
    implementation g
  else if startsWord ["macro"] ts then
    macroDefinition
    return true
  else
    require (!isPublic && startsMacroPath ts)
    onlySpelling itemMacro

end VersionedRecords.Source.Rule
