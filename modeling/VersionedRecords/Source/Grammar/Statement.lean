import VersionedRecords.Source.Grammar.Expression

/-!
Statements and blocks of them.
-/

namespace VersionedRecords.Source.Rule

open Source.Tree (startsWith startsWord startsGroup startsIdentifier next)

/-- Whether an item stands here, behind its attributes. -/
def startsItem (ts : List Tree) : Bool :=
  let second := next ts
  startsWord ["pub", "extern", "use", "fn", "mod", "type", "struct", "enum", "trait", "impl",
      "macro"] ts
    || (startsWord ["crate"] ts && !startsWith "::" second)
    || (startsWord ["static"] ts && (startsWord ["mut"] second || startsIdentifier second))
    || (startsWord ["const"] ts
      && !(startsGroup .brace second || startsWord ["static", "move"] second
        || startsWith "|" second
        || (startsWord ["async"] second
          && !startsWord ["unsafe", "extern", "fn"] (next second))))
    || (startsWord ["unsafe"] ts && !startsGroup .brace second)
    || (startsWord ["async"] ts && startsWord ["unsafe", "extern", "fn"] second)
    || (startsWord ["union"] ts && startsIdentifier second)
    || (startsWord ["auto"] ts && startsWord ["trait"] second)
    || (startsWord ["default"] ts && startsWord ["unsafe", "impl"] second)

/-- What a macro is at the beginning of a statement. -/
inductive MacroUse
  /-- A definition with a name, which is an item. -/
  | item
  /-- A statement by itself: the arguments are in braces, and nothing is applied to the result. -/
  | statement
  | other
deriving DecidableEq

/-- What a macro is whose path stands in front of `ts`. -/
def macroUse (ts : List Tree) : MacroUse :=
  let second := next ts
  let third := next second
  if !startsWith "!" ts then .other
  else if startsIdentifier second || startsWord ["try"] second then .item
  else if startsGroup .brace second && !(startsDot third || startsWith "?" third) then .statement
  else .other

/-- A variable, with what happens if the value does not have its form. -/
def binding (g : Grammar) : Rule Unit := do
  word ["let"]
  discard g.pattern
  if ← mark? ":" then discard (g.type true)
  if ← mark? "=" then
    let (_, value) ← apart (g.expression true)
    write value
    let braced := value.getLast?.any fun t => startsGroup .brace [t]
    if !braced then
      if ← word? ["else"] then block g
  mark ";"

/-- An expression as a statement, behind its attributes.  The result tells whether it is complete. -/
def expressionStatement (g : Grammar) (attributes : List Tree) : Rule Bool := do
  let (form, written) ← apart g.early
  if !form.plain then write attributes
  write written
  let ended ← mark? ";"
  return ended || form.kind == .block || form.kind == .bracedMacro

/-- A statement.  The result tells whether it is complete, so that another one may follow. -/
def statement (g : Grammar) : Rule Bool := do
  let (_, complete) ← asRead Prod.fst do
    let (_, attributes) ← apart (attributes g)
    let ts ← rest
    let use := ((← behind? plainPath).map macroUse).getD .other
    if use == .statement then
      write attributes
      discard plainPath
      discard macroArguments
      discard (mark? ";")
      return (false, true)
    else if startsWord ["let"] ts then
      write attributes
      binding g
      return (false, true)
    else if startsItem ts || use == .item then
      write attributes
      return (← g.item, true)
    else return (false, ← expressionStatement g attributes)
  return complete

/-- The content of a block. -/
def statements (g : Grammar) : Rule Unit :=
  repeatedly do
    if ← mark? ";" then return true
    if (← rest).isEmpty then return false
    let complete ← statement g
    if (← rest).isEmpty then return false
    require complete
    return true

end VersionedRecords.Source.Rule
