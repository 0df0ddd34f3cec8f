import VersionedRecords.Source.Rule

/-!
What the parts of the grammar share: what the surroundings of a type, a pattern or an expression
have to know about it, and the rules for parts that stand inside other parts.

The modules beside this one give the rules for one level of nesting, with a `Grammar` for the level
below; `Source.Grammar.Levels` puts the levels together.
-/

namespace VersionedRecords.Source

/-- An argument of a path. -/
inductive Argument
  | lifetime
  /-- A type, as it is written. -/
  | type (trees : List Tree)
  | other

namespace Argument

def isLifetime : Argument → Bool
  | lifetime => true
  | _ => false

def type? : Argument → Option (List Tree)
  | type trees => some trees
  | _ => none

end Argument

/-- The last part of a path, with its arguments if there are angle brackets. -/
structure PathEnd where
  name : String
  arguments : Option (List Argument)

namespace PathEnd

/-- Whether there are no arguments; there may be angle brackets. -/
def isPlain (p : PathEnd) : Bool := p.arguments.all List.isEmpty

/-- The arguments that are types. -/
def types (p : PathEnd) : List (List Tree) := (p.arguments.getD []).filterMap Argument.type?

end PathEnd

/-- A path as its surroundings see it. -/
structure PathForm where
  /-- Whether there is just one name, with nothing in front of it. -/
  single : Bool
  /-- Whether no part of the path has angle brackets. -/
  bare : Bool
  last : PathEnd

/-- A type as its surroundings see it. -/
inductive TypeForm
  /-- A path that does not begin with a type in angle brackets. -/
  | path (form : PathForm)
  /-- A single bound without a word in front of it, perhaps in brackets of its own. -/
  | bound (bracketed : Bool)
  | other

/-- Whether a type is a plain path. -/
def TypeForm.isPath : TypeForm → Bool
  | path _ => true
  | _ => false

/-- Whether a type may be the name of an associated item. -/
def TypeForm.isName : TypeForm → Bool
  | path form => form.single
  | _ => false

/-- A bound as its surroundings see it. -/
inductive BoundForm
  | lifetime
  | capture
  | trait
  /-- A trait with a word for constant evaluation in front of it; it keeps its spelling. -/
  | constTrait
deriving DecidableEq, Repr

/-- What may stand as a bound in some place. -/
structure BoundPlace where
  /-- Whether a bound may say what is captured. -/
  capture : Bool
  /-- Whether a bound may ask for constant evaluation. -/
  const : Bool

/-- The bounds of parameters. -/
def BoundPlace.parameter : BoundPlace := ⟨false, true⟩

/-- The bounds of opaque types. -/
def BoundPlace.opaqueType : BoundPlace := ⟨true, true⟩

/-- The bounds of objects. -/
def BoundPlace.object : BoundPlace := ⟨false, false⟩

/-- A pattern as its surroundings see it. -/
inductive PatternForm
  /-- Two dots for all that is left. -/
  | rest
  /-- A range without a beginning or without an end. -/
  | openRange
  /-- A pattern that keeps its spelling and drops attributes. -/
  | plain
  | other
deriving DecidableEq, Repr

/-- The kinds of expressions that matter to the surroundings. -/
inductive ExpressionKind
  /-- A literal by itself, with its value if it is a whole number. -/
  | literal (value : Option Nat)
  | range
  | comparison
  /-- What ends in a block and is complete without a semicolon. -/
  | block
  /-- A macro with its arguments in braces. -/
  | bracedMacro
  | other
deriving DecidableEq, Repr

/-- An expression as its surroundings see it. -/
structure ExpressionForm where
  kind : ExpressionKind
  /-- Whether the first operand keeps its spelling and drops attributes. -/
  plain : Bool

namespace ExpressionForm

def of (kind : ExpressionKind) : ExpressionForm := ⟨kind, false⟩

def other : ExpressionForm := of .other

/-- An operand that keeps its spelling. -/
def spelled : ExpressionForm := ⟨.other, true⟩

end ExpressionForm

/-- The rules for parts that may stand inside any others. -/
structure Grammar where
  /-- A type; the argument tells whether bounds may be added to it. -/
  type : Bool → Rule TypeForm
  bound : BoundPlace → Rule BoundForm
  /-- A pattern without alternatives. -/
  pattern : Rule PatternForm
  /-- An operand with all that is applied to it; the argument tells whether a struct may be built. -/
  operand : Bool → Rule ExpressionForm
  /-- An expression; the argument tells whether a struct may be built. -/
  expression : Bool → Rule ExpressionForm
  /-- An expression that ends where a statement would end. -/
  early : Rule ExpressionForm
  /-- The content of a block. -/
  statements : Rule Unit
  /-- The fields of a struct without a name. -/
  fields : Rule Unit
  /-- An item without its attributes; the result tells whether it keeps its spelling. -/
  item : Rule Bool

/-- The grammar that allows nothing. -/
def Grammar.nothing : Grammar :=
  ⟨fun _ => failure, fun _ => failure, failure, fun _ => failure, fun _ => failure, failure,
    failure, failure, failure⟩

namespace Rule

open Source.Tree (startsWith startsWord startsGroup startsIdentifier startsLifetime next)

/-! ### Beginnings -/

/-- The words that may begin a path without being identifiers. -/
def pathWords : List String := ["super", "self", "Self", "crate"]

/-- Whether a single mark stands at the front that is not the beginning of some longer one. -/
def startsMark (s : String) (longer : List String) (ts : List Tree) : Bool :=
  startsWith s ts && !longer.any fun l => startsWith l ts

/-- Whether a colon stands at the front that does not belong to a path. -/
def startsColon (ts : List Tree) : Bool := startsMark ":" ["::"] ts

/-- Whether a dot stands at the front that does not belong to a range. -/
def startsDot (ts : List Tree) : Bool := startsMark "." [".."] ts

/-- Whether a path may begin here. -/
def startsPath (ts : List Tree) : Bool :=
  startsIdentifier ts || startsWord pathWords ts || startsWith "::" ts || startsWith "<" ts

/-- Whether a literal stands here: a number, also with a minus sign, a text or a truth value. -/
def startsLiteral : List Tree → Bool
  | .leaf (.text _ _) :: _ => true
  | .leaf (.literal _) :: _ => true
  | .mark '-' _ :: .leaf (.literal s) :: _ => IntegerLiteral.isNumber s
  | ts => startsWord ["true", "false"] ts

/-- Whether a text stands here. -/
def startsText : List Tree → Bool
  | .leaf (.text _ _) :: _ => true
  | _ => false

/-- Whether a word of the compiler itself stands here, with a number sign behind it. -/
def startsBuiltin (ts : List Tree) : Bool :=
  startsWord ["builtin"] ts && startsWith "#" (next ts)

/-! ### Small parts -/

/-- Reads a literal. -/
def literal : Rule Unit := do
  let ts ← rest
  require (startsLiteral ts)
  take (if startsWith "-" ts then 2 else 1)

/-- Reads a text. -/
def text : Rule Unit := do
  require (← sees startsText)
  take 1

/-- Reads a use of the compiler itself, as it is. -/
def builtin : Rule Unit := do
  word ["builtin"]
  mark "#"
  discard identifier
  arguments

/-- Reads the exclamation mark and the arguments of a macro. -/
def macroArguments : Rule Bracket := do
  mark "!"
  anyGroup

/-- Whether a macro follows the name that has just been read. -/
def startsMacro (ts : List Tree) : Bool := startsMark "!" ["!="] ts

/-- Reads the path of a visibility, of an attribute or of a macro and gives its names. -/
def plainPath : Rule (Bool × List String) := do
  let isGlobal ← mark? "::"
  return (isGlobal, ← names)
where
  /-- Reads names with double colons between them. -/
  names : Rule (List String) := do
    nameList ((← rest).length + 1)
  nameList : Nat → Rule (List String)
    | 0 => failure
    | n + 1 => do
      require (← sees fun ts => startsIdentifier ts || startsWord pathWords ts)
      let name ← anyWord
      if ← mark? "::" then return name :: (← nameList n)
      return [name]

/-- A list in which the entries that are lifetimes come first.  The last entry may lack its comma;
it gets one if it is no longer the last. -/
def lifetimesFirst (entries : List (Bool × List Tree × Bool)) : List Tree :=
  let comma (b : Bool) : List Tree := if b then [.mark ',' false] else []
  let lifetimes := entries.filter (·.1)
  let others := entries.filter (!·.1)
  let separate := !others.isEmpty && lifetimes.getLast?.any fun e => !e.2.2
  (lifetimes.flatMap fun e => e.2.1 ++ comma e.2.2) ++ comma separate
    ++ others.flatMap fun e => e.2.1 ++ comma e.2.2

/-- Reads a list of up to `n` entries and tells which of them are lifetimes. -/
def entriesUpTo {α : Type} (isLifetime : α → Bool) (r : Rule α) :
    Nat → Rule (List (α × Bool × List Tree × Bool))
  | 0 => failure
  | n + 1 => do
    if ← sees (startsWith ">") then return []
    let (a, written) ← apart r
    if ← sees (startsWith ",") then
      discard (apart (mark ","))
      return (a, isLifetime a, written, true) :: (← entriesUpTo isLifetime r n)
    return [(a, isLifetime a, written, false)]

/-- Reads a list in angle brackets, and writes the lifetimes in front. -/
def angleList {α : Type} (isLifetime : α → Bool) (r : Rule α) : Rule (List α) := do
  mark "<"
  let entries ← entriesUpTo isLifetime r ((← rest).length + 1)
  write (lifetimesFirst (entries.map Prod.snd))
  mark ">"
  return entries.map Prod.fst

/-- Reads what is left as some bounds with plus signs between them, up to what ends them. -/
def boundsUpTo (g : Grammar) (place : BoundPlace) (ends : List Tree → Bool) : Rule Unit :=
  discard (list "+" ends (g.bound place))

end Rule

end VersionedRecords.Source
