import VersionedRecords.Expansion.Accumulator
import VersionedRecords.Expansion.Change
import VersionedRecords.Expansion.Draft
import VersionedRecords.Expansion.Snapshot
import VersionedRecords.Source.Parse

/-!
Expanding a declaration: the code of the four types that go with a record.
-/

namespace VersionedRecords

open Source

/-- Why source text cannot be expanded. -/
inductive ExpansionError
  /-- The text is no struct. -/
  | item
  /-- The arguments are no list of attribute items. -/
  | arguments
  | fault (fault : BlueprintFault)
deriving DecidableEq, Repr

namespace Blueprint

/-- The code of all types that go with a record. -/
def tokens (b : Blueprint) : List Token :=
  b.snapshotTokens ++ b.draftTokens ++ b.changeTokens ++ b.accumulatorTokens

/-- The blueprint that a declaration in source text gives, with its arguments. -/
def ofSource (arguments item : String) : Except ExpansionError Blueprint :=
  match StructDeclaration.parse? item, AttributeItem.parse? arguments with
  | none, _ => .error .item
  | some _, none => .error .arguments
  | some d, some items => (ofDeclaration items d).mapError .fault

/-- The code that a declaration in source text expands to. -/
def expand (arguments item : String) : Except ExpansionError (List Token) :=
  (ofSource arguments item).map tokens

end Blueprint

end VersionedRecords
