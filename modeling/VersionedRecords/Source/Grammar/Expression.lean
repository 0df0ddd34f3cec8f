import VersionedRecords.Source.Grammar.Pattern

/-!
Expressions: operands, what is applied to them, and operators with their binding strength.  The place
of a field of a tuple is written as a plain number; a fraction behind a dot stands for two places.
-/

namespace VersionedRecords.Source.Rule

open Source.Tree (startsWith startsWord startsGroup startsIdentifier startsLifetime next)

/-! ### Operators -/

/-- How strongly an operator binds, from the weakest on. -/
inductive Strength
  | least
  | assign
  | range
  | or
  | and
  | compare
  | bitOr
  | bitXor
  | bitAnd
  | shift
  | sum
  | product
  | cast
deriving DecidableEq, Repr

/-- The rank of a strength. -/
def Strength.rank : Strength → Nat
  | least => 0
  | assign => 1
  | range => 2
  | or => 3
  | and => 4
  | compare => 5
  | bitOr => 6
  | bitXor => 7
  | bitAnd => 8
  | shift => 9
  | sum => 10
  | product => 11
  | cast => 12

/-- The operators between two operands, the longer ones first. -/
def binaryOperators : List (String × Strength) :=
  [("+=", .assign), ("-=", .assign), ("*=", .assign), ("/=", .assign), ("%=", .assign),
    ("^=", .assign), ("&=", .assign), ("|=", .assign), ("<<=", .assign), (">>=", .assign),
    ("&&", .and), ("||", .or), ("<<", .shift), (">>", .shift), ("==", .compare), ("<=", .compare),
    ("!=", .compare), (">=", .compare), ("+", .sum), ("-", .sum), ("*", .product),
    ("/", .product), ("%", .product), ("^", .bitXor), ("&", .bitAnd), ("|", .bitOr),
    ("<", .compare), (">", .compare)]

/-- What may follow an operand. -/
inductive Operator
  | binary (text : String) (strength : Strength)
  | assign
  | range
  | cast

/-- The operator that stands at the front. -/
def operatorAt (ts : List Tree) : Option Operator :=
  match binaryOperators.find? fun o => startsWith o.1 ts with
  | some (text, strength) => some (.binary text strength)
  | none =>
    if startsMark "=" ["=>"] ts then some .assign
    else if startsWith ".." ts then some .range
    else if startsWord ["as"] ts then some .cast
    else none

def Operator.strength : Operator → Strength
  | binary _ strength => strength
  | assign => .assign
  | range => .range
  | cast => .cast

/-- The strength of what stands at the front. -/
def strengthAt (ts : List Tree) : Strength := ((operatorAt ts).map Operator.strength).getD .least

/-- Whether a half-open range ends here without a second bound. -/
def endsOpenRange (structs : Bool) (ts : List Tree) : Bool :=
  ts.isEmpty || startsDot ts || (!structs && startsGroup .brace ts) || startsWord ["as"] ts
    || [",", ";", "?", "=>", "=", "+", "/", "%", "^", ">", "<=", "!=", "-=", "*=", "&=", "|=",
        "<<="].any fun s => startsWith s ts

/-- Whether something that is applied to an operand stands behind the type of a cast. -/
def startsApplication (ts : List Tree) : Bool :=
  startsDot ts || startsWith "?" ts || startsGroup .square ts || startsGroup .round ts

/-! ### Operands -/

/-- Whether an expression may begin here. -/
def startsExpression : List Tree → Bool
  | .word _ :: _ => true
  | .group _ _ :: _ => true
  | ts => startsLiteral ts || startsMark "!" ["!="] ts || startsMark "-" ["-=", "->"] ts
      || startsMark "*" ["*="] ts || startsMark "|" ["|="] ts || startsMark "&" ["&="] ts
      || startsWith ".." ts || startsMark "<" ["<=", "<<="] ts || startsWith "::" ts
      || startsLifetime ts || startsWith "#" ts

/-- Expressions with commas between them. -/
def expressionList (g : Grammar) : Rule Unit := discard (commas (g.expression true))

/-- The place of a field behind a dot, or two of them in the form of a fraction.  The result tells
whether a dot stands at the end of the fraction, so that something has to follow. -/
def places (s : String) : Rule Bool := do
  discard (apart (take 1))
  let parts := s.splitOn "."
  let isOpen := parts.getLast? == some ""
  let parts := if isOpen then parts.dropLast else parts
  let indices ← parts.mapM fun p => (IntegerLiteral.index? p : Option Nat)
  let dot : List Tree := [.mark '.' false]
  write (dot.intercalate (indices.map fun n => [.leaf (.literal (toString n))]))
  if isOpen then write dot
  return isOpen

/-- A field or a method behind a dot. -/
def memberAccess (g : Grammar) : Rule Unit := do
  if !(← word? ["await"]) then
    let named ← member
    if named && (← sees (startsWith "::")) then
      mark "::"
      discard (angleArguments g)
      within .round (expressionList g)

/-- Something that is applied to an operand, if there is anything.  A range has no fields. -/
def application? (g : Grammar) (isRange : Bool) : Rule Bool := do
  match ← rest with
  | .group .round _ :: _ =>
    within .round (expressionList g)
    return true
  | .group .square _ :: _ =>
    discard (within .square (g.expression true))
    return true
  | .mark '.' false :: .leaf (.literal s) :: _ =>
    if isRange then return false
    mark "."
    if IntegerLiteral.isFraction s then
      if ← places s then memberAccess g
    else memberAccess g
    return true
  | ts =>
    if isRange then return false
    else if startsDot ts then
      mark "."
      memberAccess g
      return true
    else mark? "?"

/-- All that is applied to an operand of some form. -/
def applications (g : Grammar) (form : ExpressionForm) : Rule ExpressionForm := do
  if ← application? g (form.kind == .range) then
    repeatedly (application? g false)
    return .other
  else return form

/-! ### Operations -/

/-- The second bound of a range, which `bound` reads.  Only a half-open range may lack it. -/
def rangeEnd (structs closed : Bool) (bound : Rule Unit) : Rule Unit := do
  let ended ← sees (endsOpenRange structs)
  if closed || !ended then bound

mutual

/-- Operators that bind at least as strongly as `base`, each with its right side, behind an operand
of the form `left`.  Comparisons cannot be chained, and nothing can be done with a range. -/
def operationsUpTo (g : Grammar) (structs : Bool) :
    Nat → Strength → ExpressionForm → Rule ExpressionForm
  | 0, _, _ => failure
  | n + 1, base, left => do
    if left.kind == .range then return left
    match operatorAt (← rest) with
    | none => return left
    | some op =>
      if op.strength.rank < base.rank then return left
      match op with
      | .binary text strength =>
        require !(strength == .compare && left.kind == .comparison)
        mark text
        rightSideUpTo g structs n strength
        let kind := if strength == .compare then .comparison else .other
        operationsUpTo g structs n base ⟨kind, left.plain⟩
      | .assign =>
        mark "="
        rightSideUpTo g structs n .assign
        operationsUpTo g structs n base ⟨.other, left.plain⟩
      | .range =>
        let closed ← rangeDots false
        rangeEnd structs closed (rightSideUpTo g structs n .range)
        return .of .range
      | .cast =>
        word ["as"]
        discard (g.type false)
        require !(← sees startsApplication)
        operationsUpTo g structs n base ⟨.other, left.plain⟩

/-- The right side of an operator of some strength. -/
def rightSideUpTo (g : Grammar) (structs : Bool) : Nat → Strength → Rule Unit
  | 0, _ => failure
  | n + 1, strength => do extendUpTo g structs n strength (← g.operand structs)

/-- What binds more strongly than the operator in front belongs to its right side. -/
def extendUpTo (g : Grammar) (structs : Bool) : Nat → Strength → ExpressionForm → Rule Unit
  | 0, _, _ => failure
  | n + 1, strength, right => do
    let ts ← rest
    let following := strengthAt ts
    if strength.rank < following.rank || (strength == .assign && following == .assign) then
      let right ← operationsUpTo g structs n following right
      if (← rest).length < ts.length then extendUpTo g structs n strength right

end

/-- A number of steps that is enough for all operations in what is left to read. -/
def enoughSteps : Rule Nat := do return 4 * ((← rest).length + 4)

/-- Operators behind an operand that bind at least as strongly as `base`. -/
def operations (g : Grammar) (structs : Bool) (base : Strength) (left : ExpressionForm) :
    Rule ExpressionForm := do
  operationsUpTo g structs (← enoughSteps) base left

/-- The right side of an operator of some strength. -/
def rightSide (g : Grammar) (structs : Bool) (strength : Strength) : Rule Unit := do
  rightSideUpTo g structs (← enoughSteps) strength

/-! ### Control flow -/

/-- A label in front of a loop or a block. -/
def label : Rule Unit := do
  lifetime
  mark ":"

/-- A branch on conditions, with all its further branches. -/
def branchUpTo (g : Grammar) : Nat → Rule Unit
  | 0 => failure
  | n + 1 => do
    word ["if"]
    discard (g.expression false)
    block g
    if ← word? ["else"] then
      if ← sees (startsWord ["if"]) then branchUpTo g n else block g

/-- A branch on conditions. -/
def branch (g : Grammar) : Rule Unit := do branchUpTo g ((← rest).length + 1)

/-- A loop without its label. -/
def loop (g : Grammar) : Rule Unit := do
  if ← word? ["while"] then discard (g.expression false)
  else if ← word? ["for"] then
    discard (alternatives g)
    word ["in"]
    discard (g.expression false)
  else word ["loop"]
  attributedBlock g

/-- An arm of a choice.  A comma may be left out behind a block. -/
def arm (g : Grammar) : Rule Unit := do
  discard (attributes g)
  discard (alternatives g)
  if ← word? ["if"] then discard (g.expression true)
  mark "=>"
  let form ← g.early
  let last := (← rest).isEmpty
  if form.kind == .block || last then discard (mark? ",") else mark ","

/-- A choice between patterns. -/
def choice (g : Grammar) : Rule Unit := do
  word ["match"]
  discard (g.expression false)
  within .brace do
    innerAttributes g
    repeatedly do
      if (← rest).isEmpty then return false
      arm g
      return true

/-- The value that a jump carries, if there is one. -/
def jumpValue? (g : Grammar) : Rule Unit := do
  if ← sees startsExpression then discard (g.expression true)

/-- A jump out of a loop or a block.  What begins with a label of its own may not follow the label
without brackets. -/
def breakOut (g : Grammar) (structs : Bool) : Rule Unit := do
  word ["break"]
  if ← lifetime? then require !(← sees (startsWith ":"))
  if structs || !(← sees (startsGroup .brace)) then jumpValue? g

/-! ### Closures -/

/-- An argument of a closure.  A pattern that keeps its spelling drops its attributes. -/
def closureArgument (g : Grammar) : Rule Unit := do
  let (_, attributes) ← apart (attributes g)
  let (form, written) ← apart g.pattern
  let typed ← sees (startsWith ":")
  if typed || form != .plain then write attributes
  write written
  if typed then
    mark ":"
    discard (g.type true)

/-- Whether a closure stands here. -/
def startsClosure (ts : List Tree) : Bool :=
  let second := next ts
  startsWith "|" ts || startsWord ["move", "static"] ts
    || (startsWord ["for"] ts && startsWith "<" second
      && (startsLifetime (next second) || startsWith ">" (next second)))
    || (startsWord ["const"] ts && !startsGroup .brace second)
    || (startsWord ["async"] ts && (startsWith "|" second || startsWord ["move"] second))

/-- A closure.  With a result type its body is a block. -/
def closure (g : Grammar) (structs : Bool) : Rule Unit := do
  discard (quantifier? g)
  discard (word? ["const"])
  discard (word? ["static"])
  discard (word? ["async"])
  discard (word? ["move"])
  mark "|"
  discard (list "," (startsWith "|") (closureArgument g))
  mark "|"
  if ← mark? "->" then
    discard (g.type true)
    block g
  else discard (g.expression structs)

/-! ### Brackets and names -/

/-- A field of a struct that is built. -/
def fieldValue (g : Grammar) : Rule Unit := do
  discard (attributes g)
  let named ← member
  if !named || (← sees (startsWith ":")) then
    mark ":"
    discard (g.expression true)

/-- The content of the braces of a struct that is built, up to `n` fields. -/
def fieldValuesUpTo (g : Grammar) : Nat → Rule Unit
  | 0 => failure
  | n + 1 => do
    if (← rest).isEmpty then return
    if ← mark? ".." then
      if !(← rest).isEmpty then discard (g.expression true)
    else
      fieldValue g
      if ← mark? "," then fieldValuesUpTo g n

/-- A path, the call of a macro or a struct that is built. -/
def named (g : Grammar) (structs : Bool) : Rule ExpressionForm := do
  let (below, form) ← anyPath g true
  let ts ← rest
  if !below && form.bare && startsMacro ts then
    let bracket ← macroArguments
    return .of (if bracket = .brace then .bracedMacro else .other)
  if structs && startsGroup .brace ts then
    within .brace do fieldValuesUpTo g ((← rest).length + 1)
  return .other

/-- An array: its elements, or one value and how often it is there. -/
def array (g : Grammar) : Rule Unit :=
  within .square do
    if (← rest).isEmpty then return
    discard (g.expression true)
    if ← mark? ";" then discard (g.expression true)
    else if ← mark? "," then expressionList g

/-- The value of a literal that stands alone, if it is a whole number. -/
def wholeNumber : List Tree → Option Nat
  | .leaf (.literal s) :: _ => IntegerLiteral.ofWritten? s
  | _ => none

/-- An operand by itself. -/
def atom (g : Grammar) (structs : Bool) : Rule ExpressionForm := do
  let ts ← rest
  let second := next ts
  if startsLiteral ts then
    literal
    return .of (.literal (wholeNumber ts))
  else if startsWord ["async"] ts && (startsGroup .brace second
      || (startsWord ["move"] second && startsGroup .brace (next second))) then
    word ["async"]
    discard (word? ["move"])
    block g
    return .other
  else if startsWord ["try"] ts && startsGroup .brace second then
    word ["try"]
    block g
    return .of .block
  else if startsClosure ts then
    closure g structs
    return .other
  else if startsBuiltin ts then
    asRead (fun _ => true) builtin
    return .spelled
  else if startsPath ts
      || (startsWord ["try"] ts && (startsWith "!" second || startsWith "::" second)) then
    named g structs
  else if startsGroup .round ts then
    within .round (expressionList g)
    return .other
  else if startsWord ["break"] ts then
    breakOut g structs
    return .other
  else if ← word? ["continue"] then
    discard lifetime?
    return .other
  else if ← word? ["return", "yield"] then
    jumpValue? g
    return .other
  else if startsWord ["become"] ts then
    asRead (fun _ => true) do
      word ["become"]
      discard (g.expression true)
    return .spelled
  else if startsGroup .square ts then
    array g
    return .other
  else if ← word? ["let"] then
    discard (alternatives g)
    mark "="
    discard (operations g structs .compare (← g.operand structs))
    return .other
  else if startsWord ["if"] ts then
    branch g
    return .of .block
  else if startsWord ["while", "for", "loop"] ts then
    loop g
    return .of .block
  else if startsWord ["match"] ts then
    choice g
    return .of .block
  else if startsWord ["unsafe", "const"] ts then
    word ["unsafe", "const"]
    attributedBlock g
    return .of .block
  else if startsGroup .brace ts then
    attributedBlock g
    return .of .block
  else if startsWith ".." ts then
    let closed ← rangeDots false
    rangeEnd structs closed (rightSide g structs .range)
    return .of .range
  else if ← word? ["_"] then return .other
  else
    label
    if ← sees (startsGroup .brace) then attributedBlock g else loop g
    return .of .block

/-! ### Expressions -/

/-- An operand with the operators in front of it and all that is applied to it.  A range without a
first bound has no attributes. -/
def operand (g : Grammar) (structs : Bool) : Rule ExpressionForm :=
  asRead ExpressionForm.plain do
    let attributes ← attributes g
    let ts ← rest
    if startsWith "&" ts then
      mark "&"
      let ts ← rest
      if startsWord ["raw"] ts && startsWord ["mut", "const"] (next ts) then take 2
      else discard (word? ["mut"])
      discard (g.operand structs)
      return .other
    else if startsWith "*" ts || startsWith "!" ts || startsWith "-" ts then
      take 1
      discard (g.operand structs)
      return .other
    else
      let form ← applications g (← atom g structs)
      require (attributes.isEmpty || form.kind != .range)
      return form

/-- An expression. -/
def expression (g : Grammar) (structs : Bool) : Rule ExpressionForm := do
  operations g structs .least (← operand g structs)

/-- Whether something stands here that is complete where its block ends. -/
def startsBlock (ts : List Tree) : Bool :=
  startsWord ["if", "while", "loop", "match", "unsafe"] ts
    || (startsWord ["for"] ts && !startsClosure ts)
    || (startsWord ["try", "const"] ts && startsGroup .brace (next ts))
    || startsGroup .brace ts || startsLifetime ts

/-- An expression that ends where a statement would end: behind a block, unless something is applied
to it.  Attributes in front of what keeps its spelling are dropped. -/
def early (g : Grammar) : Rule ExpressionForm := do
  let (_, attributes) ← apart (attributes g)
  if ← sees startsBlock then
    write attributes
    let form ← atom g true
    if ← sees fun ts => startsDot ts || startsWith "?" ts then
      operations g true .least (← applications g form)
    else return form
  else
    let (form, written) ← apart (operand g true)
    if !form.plain then write attributes
    write written
    operations g true .least form

end VersionedRecords.Source.Rule
