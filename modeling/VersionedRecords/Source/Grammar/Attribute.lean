import VersionedRecords.Source.Attribute
import VersionedRecords.Source.Grammar.Basic

/-!
Attributes and blocks.  An attribute stands in front of what it is about; one with an exclamation
mark stands inside, at the beginning of the group.
-/

namespace VersionedRecords.Source.Rule

open Source.Tree (startsWith startsGroup next)

/-- The value of a literal that stands alone behind an equals sign. -/
def literalValue : List Tree → AttributeValue
  | [.leaf (.literal s)] =>
    match IntegerLiteral.ofWritten? s with
    | some n => .integer ⟨false, n⟩
    | none => .expression
  | [.mark '-' _, .leaf (.literal s)] =>
    match IntegerLiteral.ofWritten? s with
    | some n => .integer ⟨true, n⟩
    | none => .expression
  | _ => .expression

/-- The value behind the equals sign of an attribute item.  A number with a sign counts as a literal
only if it is the last thing there; an attribute may not stand here. -/
def attributeValue (g : Grammar) : Rule AttributeValue := do
  let ts ← rest
  let behind ← behind? literal
  if behind.any List.isEmpty then
    literal
    return literalValue ts
  require !(startsWith "#" ts && startsGroup .square (next ts))
  match (← g.expression true).kind with
  | .literal (some n) => return .integer ⟨false, n⟩
  | _ => return .expression

/-- An attribute item. -/
def attributeItem (g : Grammar) : Rule AttributeItem := do
  let (isGlobal, path) ← if ← word? ["unsafe"] then pure (false, ["unsafe"]) else plainPath
  match ← rest with
  | .group _ _ :: _ =>
    discard anyGroup
    return ⟨isGlobal, path, .list⟩
  | ts =>
    if startsWith "=" ts then
      mark "="
      return ⟨isGlobal, path, ← attributeValue g⟩
    return ⟨isGlobal, path, .none⟩

/-- The attributes in front of something. -/
def attributes (g : Grammar) : Rule (List Attribute) := do
  attributesUpTo ((← rest).length + 1)
where
  attributesUpTo : Nat → Rule (List Attribute)
    | 0 => failure
    | n + 1 => do
      if !(← sees (startsWith "#")) then return []
      let (item, trees) ← apart do
        mark "#"
        within .square (attributeItem g)
      write trees
      return ⟨item, trees⟩ :: (← attributesUpTo n)

/-- Whether an attribute of the surrounding group stands here. -/
def startsInnerAttribute (ts : List Tree) : Bool := startsWith "#" ts && startsWith "!" (next ts)

/-- The attributes of a group, at its beginning. -/
def innerAttributes (g : Grammar) : Rule Unit := do
  repeatedly do
    if !(← sees startsInnerAttribute) then return false
    mark "#"
    mark "!"
    discard (within .square (attributeItem g))
    return true

/-- A block of statements. -/
def block (g : Grammar) : Rule Unit := within .brace g.statements

/-- A block of statements that may begin with attributes of its own. -/
def attributedBlock (g : Grammar) : Rule Unit :=
  within .brace do
    innerAttributes g
    g.statements

end VersionedRecords.Source.Rule
