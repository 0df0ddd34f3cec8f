import VersionedRecords.Source.Grammar.Path

/-!
Bounds, the parameters that declarations introduce, and conditions on them.  Lists of parameters are
written with the lifetimes first; what is empty (brackets without parameters, a colon without bounds,
a `where` without conditions) is not written.
-/

namespace VersionedRecords.Source.Rule

open Source.Tree (startsWith startsWord startsGroup startsIdentifier startsLifetime next)

/-! ### Parameters -/

/-- Bounds behind a colon, if there are any.  Without bounds the colon is not written. -/
def colonBounds? (bounds : Rule Unit) : Rule Unit := do
  if ← sees (startsWith ":") then
    discard (apart (mark ":"))
    let (_, written) ← apart bounds
    if !written.isEmpty then write (.mark ':' false :: written)

/-- The lifetimes that bound a lifetime. -/
def lifetimeBounds (ends : List Tree → Bool) : Rule Unit :=
  discard (list "+" (fun ts => ts.isEmpty || startsWith "," ts || ends ts) lifetime)

/-- A parameter; the result tells whether it is a lifetime. -/
def parameter (g : Grammar) : Rule Bool := do
  discard (attributes g)
  if ← lifetime? then
    colonBounds? (lifetimeBounds (startsWith ">"))
    return true
  else if ← word? ["const"] then
    discard identifier
    mark ":"
    discard (g.type true)
    if ← mark? "=" then constant g
    return false
  else
    discard identifier
    colonBounds? (boundsUpTo g .parameter fun ts =>
      startsWith "," ts || startsWith ">" ts || startsWith "=" ts)
    if ← mark? "=" then discard (g.type true)
    return false

/-- The parameters that a `for` introduces. -/
def quantifier (g : Grammar) : Rule Unit := do
  word ["for"]
  mark "<"
  discard (list "," (startsWith ">") (parameter g))
  mark ">"

/-- The parameters that a `for` introduces, if there is one. -/
def quantifier? (g : Grammar) : Rule Bool := do
  let found ← sees (startsWord ["for"])
  if found then quantifier g
  return found

/-- A parameter of a declaration.  It may be left open. -/
def declaredParameter (g : Grammar) : Rule Bool := do
  discard (attributes g)
  if ← word? ["_"] then return false else parameter g

/-- The parameters of a declaration, if there are any; the result is their number. -/
def parameters? (g : Grammar) : Rule Nat := do
  if ← sees (startsWith "<") then
    let (found, written) ← apart (angleList id (declaredParameter g))
    if !found.isEmpty then write written
    return found.length
  else return 0

/-! ### Bounds -/

/-- What is captured: lifetimes and names. -/
def capture : Rule Unit := do
  word ["use"]
  discard <| angleList id do
    if ← lifetime? then return true
    require (← sees fun ts => startsWord ["Self"] ts || startsIdentifier ts)
    discard anyWord
    return false

/-- Whether a trait with a word for constant evaluation stands here. -/
def startsConstTrait (ts : List Tree) : Bool := startsGroup .square ts || startsWord ["const"] ts

/-- The path of a trait, perhaps with arguments in round brackets.  Angle brackets in front of these
are empty, and are not written. -/
def traitPath (g : Grammar) : Rule Unit := do
  let (form, written) ← apart (path g false)
  if form.last.isPlain && (← sees startsRoundArguments) then
    write (if form.last.arguments.isSome then withoutBrackets written else written)
    roundArguments g
  else write written
where
  /-- The trees in front of empty angle brackets, which may have a double colon in front. -/
  withoutBrackets (ts : List Tree) : List Tree :=
    ((ts.reverse.drop 2).dropWhile isColon).reverse
  isColon : Tree → Bool
    | .mark ':' _ => true
    | _ => false

/-- A trait as a bound, without brackets around it.  A trait that is not required may not be
quantified. -/
def traitBound (g : Grammar) (place : BoundPlace) : Rule BoundForm := do
  let quantified ← quantifier? g
  let isConst ← sees startsConstTrait
  if isConst then
    require place.const
    if !(← word? ["const"]) then within .square (word ["const"])
  let optional ← mark? "?"
  let quantified ← if !quantified && optional then quantifier? g else pure quantified
  traitPath g
  require !(quantified && optional)
  return if isConst then .constTrait else .trait

/-- A bound. -/
def bound (g : Grammar) (place : BoundPlace) : Rule BoundForm :=
  asRead (· == .constTrait) do
    if ← lifetime? then return .lifetime
    if ← sees (startsWord ["use"]) then
      capture
      require place.capture
      return .capture
    if ← sees (startsGroup .round) then within .round (traitBound g place)
    else traitBound g place

/-- Whether a bound may begin here. -/
def startsBound (place : BoundPlace) : List Tree → Bool
  | .word _ :: _ => true
  | ts => startsWith "::" ts || startsWith "?" ts || startsLifetime ts || startsGroup .round ts
      || (place.const && startsGroup .square ts)

/-- Some bounds, more than one only if `plus` allows it. -/
def bounds (g : Grammar) (place : BoundPlace) (plus : Bool) : Rule (List BoundForm) := do
  boundsUpTo ((← rest).length + 1)
where
  boundsUpTo : Nat → Rule (List BoundForm)
    | 0 => failure
    | n + 1 => do
      let form ← bound g place
      if plus && (← mark? "+") then
        if ← sees (startsBound place) then return form :: (← boundsUpTo n)
      return [form]

/-- Bounds at least one of which is a trait. -/
def traits (g : Grammar) (place : BoundPlace) (plus : Bool) : Rule (List BoundForm) := do
  let forms ← bounds g place plus
  require (forms.any fun f => f == .trait || f == .constTrait)
  return forms

/-! ### Conditions -/

/-- Whether angle brackets that stand here hold parameters, and not the type that a path is below.
-/
def startsParameters (ts : List Tree) : Bool :=
  let second := next ts
  let third := next second
  startsWith "<" ts
    && (startsWith ">" second || startsWith "#" second || startsWord ["const"] second
      || ((startsLifetime second || startsIdentifier second)
        && (startsWith ">" third || startsWith "," third || startsColon third
          || startsWith "=" third)))

/-- Whether a condition and its bounds end here. -/
def endsCondition (ts : List Tree) : Bool :=
  ts.isEmpty || startsGroup .brace ts || startsWith "," ts || startsWith ";" ts || startsColon ts
    || startsWith "=" ts

/-- A condition. -/
def condition (g : Grammar) : Rule Unit := do
  let ts ← rest
  if startsLifetime ts && startsWith ":" (next ts) then
    lifetime
    mark ":"
    lifetimeBounds fun ts => startsGroup .brace ts || startsWith ";" ts || startsWith ":" ts
      || startsWith "=" ts
  else
    discard (quantifier? g)
    discard (g.type true)
    mark ":"
    boundsUpTo g .parameter endsCondition

/-- A `where` with its conditions, if there is one.  Without conditions it is not written. -/
def conditions? (g : Grammar) : Rule Bool := do
  if ← sees (startsWord ["where"]) then
    discard (apart (word ["where"]))
    require !(← sees startsParameters)
    let (_, written) ← apart (list "," endsCondition (condition g))
    if !written.isEmpty then write (.word "where" :: written)
    return true
  else return false

end VersionedRecords.Source.Rule
