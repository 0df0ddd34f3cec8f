import VersionedRecords.Source.Grammar.Item
import VersionedRecords.Source.Grammar.Statement

/-!
The whole grammar.  Each level gives the rules for what stands inside the parts of the next; a text
of `n` tokens has no more levels than tokens, and on each of them a few rules follow each other
without reading anything.
-/

namespace VersionedRecords.Source

namespace Grammar

/-- The grammar for parts that are nested up to some depth. -/
def levels : Nat → Grammar
  | 0 => nothing
  | n + 1 =>
    { type := fun plus s => Rule.type (levels n) plus s
      bound := fun place s => Rule.bound (levels n) place s
      pattern := fun s => Rule.pattern (levels n) s
      operand := fun structs s => Rule.operand (levels n) structs s
      expression := fun structs s => Rule.expression (levels n) structs s
      early := fun s => Rule.early (levels n) s
      statements := fun s => Rule.statements (levels n) s
      fields := fun s => (discard (Rule.namedFields (levels n)) : Rule Unit) s
      item := fun s => Rule.item (levels n) s }

/-- The grammar for some trees. -/
def forTrees (ts : List Tree) : Grammar := levels (4 * (Tree.allTokens ts).length + 16)

end Grammar

end VersionedRecords.Source
