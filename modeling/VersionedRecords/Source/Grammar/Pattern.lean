import VersionedRecords.Source.Grammar.Type

/-!
Patterns.  The closed range has two spellings, of which the one with the equals sign is written; the
place of a field of a tuple is written as a plain number.
-/

namespace VersionedRecords.Source.Rule

open Source.Tree (startsWith startsWord startsGroup startsIdentifier startsLifetime next)

/-! ### Parts -/

/-- The name of a field: an identifier, or the place of a field of a tuple.  The result tells whether
it is an identifier. -/
def member : Rule Bool := do
  if ← identifier? then return true
  match ← rest with
  | .leaf (.literal s) :: _ =>
    match IntegerLiteral.index? s with
    | some n =>
      discard (apart (take 1))
      write [.leaf (.literal (toString n))]
      return false
    | none => failure
  | _ => failure

/-- The dots of a range; the result tells whether the range includes its end.  In patterns three
dots stand for two with an equals sign. -/
def rangeDots (threeDots : Bool) : Rule Bool := do
  let ts ← rest
  if startsWith "..=" ts then
    mark "..="
    return true
  else if startsWith "..." ts then
    require threeDots
    discard (apart (mark "..."))
    write [.mark '.' true, .mark '.' true, .mark '=' false]
    return true
  else
    mark ".."
    return false

/-- Whether a range in a pattern ends here without a bound. -/
def endsRange (ts : List Tree) : Bool :=
  ts.isEmpty || startsWith "|" ts || startsWith "=" ts || startsColon ts || startsWith "," ts
    || startsWith ";" ts || startsWord ["if"] ts

/-- A bound of a range in a pattern: a literal, a path or a constant block. -/
def rangeBound (g : Grammar) : Rule Unit := do
  let ts ← rest
  if startsLiteral ts then literal
  else if startsPath ts then discard (anyPath g true)
  else
    word ["const"]
    attributedBlock g

/-- What follows the first bound of a range in a pattern. -/
def restOfRange (g : Grammar) : Rule PatternForm := do
  let closed ← rangeDots true
  if ← sees endsRange then
    require !closed
    return .openRange
  rangeBound g
  return .other

/-- A field in the pattern of a struct. -/
def fieldPattern (alternatives : Rule PatternForm) : Rule Unit := do
  let boxed ← word? ["box"]
  let byReference ← word? ["ref"]
  let changeable ← word? ["mut"]
  if boxed || byReference || changeable then discard identifier
  else
    let named ← member
    if !named || (← sees (startsWith ":")) then
      mark ":"
      discard alternatives

/-- The content of the braces in the pattern of a struct, up to `n` fields. -/
def fieldPatternsUpTo (g : Grammar) (alternatives : Rule PatternForm) : Nat → Rule Unit
  | 0 => failure
  | n + 1 => do
    if (← rest).isEmpty then return
    discard (attributes g)
    if ← mark? ".." then return
    fieldPattern alternatives
    if ← mark? "," then fieldPatternsUpTo g alternatives n

/-! ### Alternatives -/

/-- Whether a further alternative follows. -/
def startsAlternative (ts : List Tree) : Bool := startsMark "|" ["||", "|="] ts

/-- Alternatives; a bar may stand in front of the first. -/
def alternatives (g : Grammar) : Rule PatternForm := do
  let leading ← mark? "|"
  let form ← g.pattern
  let more ← sees startsAlternative
  repeatedly do
    let more ← sees startsAlternative
    if more then
      mark "|"
      discard g.pattern
    return more
  return if leading || more then .other else form

/-- Alternatives with commas between them. -/
def patternList (g : Grammar) : Rule (List PatternForm) := commas (alternatives g)

/-! ### Patterns -/

/-- Whether a path that is a pattern, or the first part of one, stands here. -/
def startsPatternPath (ts : List Tree) : Bool :=
  let second := next ts
  (startsIdentifier ts
      && (startsWith "::" second || startsWith "!" second || startsGroup .brace second
        || startsGroup .round second || startsWith ".." second))
    || (startsWord ["self"] ts && startsWith "::" second)
    || startsWith "::" ts || startsWith "<" ts || startsWord ["Self", "super", "crate"] ts

/-- A pattern that begins with a path. -/
def pathPattern (g : Grammar) : Rule PatternForm := do
  let (below, form) ← anyPath g true
  let ts ← rest
  if !below && form.bare && startsMacro ts then discard macroArguments
  else if startsGroup .brace ts then
    within .brace do fieldPatternsUpTo g (alternatives g) ((← rest).length + 1)
  else if startsGroup .round ts then discard (within .round (patternList g))
  else if startsWith ".." ts then return ← restOfRange g
  return .other

/-- A pattern that is a name, with what it is to stand for. -/
def namePattern (g : Grammar) : Rule PatternForm := do
  discard (word? ["ref"])
  discard (word? ["mut"])
  if !(← word? ["self"]) then discard identifier
  if ← mark? "@" then discard g.pattern
  return .other

/-- A pattern without alternatives. -/
def pattern (g : Grammar) : Rule PatternForm := do
  let ts ← rest
  if startsPatternPath ts then pathPattern g
  else if ← word? ["_"] then return .other
  else if startsWord ["box"] ts then
    asRead (fun _ => true) do
      word ["box"]
      discard g.pattern
    return .plain
  else if startsWith "-" ts || startsLiteral ts || startsWord ["const"] ts then
    rangeBound g
    if ← sees (startsWith "..") then restOfRange g else return .other
  else if startsWord ["ref", "mut", "self"] ts || startsIdentifier ts then namePattern g
  else if ← mark? "&" then
    discard (word? ["mut"])
    discard g.pattern
    return .other
  else if startsGroup .round ts then
    discard (within .round (patternList g))
    return .other
  else if startsGroup .square ts then
    let forms ← within .square (patternList g)
    require !(forms.contains .openRange)
    return .other
  else
    let closed ← rangeDots false
    if ← sees endsRange then
      require !closed
      return .rest
    rangeBound g
    return .openRange

end VersionedRecords.Source.Rule
