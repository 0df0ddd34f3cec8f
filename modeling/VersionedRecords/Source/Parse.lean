import VersionedRecords.Source.Grammar.Levels

/-!
What a text says: a struct with the attributes in front of it, or a list of attribute items.
-/

namespace VersionedRecords.Source

/-- Obeys a rule for the whole of a text. -/
def ofText? {α : Type} (r : Grammar → Rule α) (s : String) : Option α := do
  let ts ← Tree.parse? s
  (r (.forTrees ts)).whole? ts

/-- The items of an attribute, with commas between them. -/
def AttributeItem.parse? (s : String) : Option (List AttributeItem) :=
  ofText? (fun g => Rule.commas (Rule.attributeItem g)) s

/-- A struct with its attributes. -/
def StructDeclaration.parse? (s : String) : Option StructDeclaration :=
  ofText? (fun g => do Rule.struct g (← Rule.attributes g)) s

end VersionedRecords.Source
