import VersionedRecords.Source.Tree
import VersionedRecords.Source.Literal

/-!
Attributes: the items that stand in square brackets in front of a declaration or a field.
-/

namespace VersionedRecords.Source

/-- What stands behind the path of an attribute item. -/
inductive AttributeValue
  | none
  /-- Anything in brackets. -/
  | list
  /-- A whole number behind an equals sign. -/
  | integer (literal : IntegerLiteral)
  /-- Any other expression behind an equals sign. -/
  | expression
deriving DecidableEq, Repr

structure AttributeItem where
  /-- Whether the path begins with a double colon. -/
  isGlobal : Bool
  path : List String
  value : AttributeValue
deriving DecidableEq, Repr

/-- The name of the item, if its path is no more than that. -/
def AttributeItem.name? (a : AttributeItem) : Option String :=
  match a.isGlobal, a.path with
  | false, [name] => some name
  | _, _ => none

/-- An attribute in front of something. -/
structure Attribute where
  item : AttributeItem
  /-- The attribute as it is written. -/
  trees : List Tree

def Attribute.tokens (a : Attribute) : List Token := Tree.allTokens a.trees

end VersionedRecords.Source
