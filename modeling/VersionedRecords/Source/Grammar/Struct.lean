import VersionedRecords.Source.Declaration
import VersionedRecords.Source.Grammar.Bound

/-!
Structs: visibilities, fields, and what a struct is made of.
-/

namespace VersionedRecords.Source.Rule

open Source.Tree (startsWith startsWord startsGroup next)

/-- A visibility, if there is one.  Round brackets belong to it if they restrict it. -/
def visibility? : Rule Bool := do
  if !(← word? ["pub"]) then return false
  match ← rest with
  | .group .round [.word w] :: _ => if ["crate", "self", "super"].contains w then take 1
  | .group .round (.word "in" :: _) :: _ =>
    within .round do
      word ["in"]
      discard plainPath
  | _ => return true
  return true

/-- A type, with its written form. -/
def writtenType (g : Grammar) : Rule WrittenType := do
  let (form, trees) ← apart (g.type true)
  write trees
  return ⟨trees, match form with
    | .path p => some p.last
    | _ => none⟩

/-- Whether a struct or a union without a name stands here. -/
def startsNameless (ts : List Tree) : Bool :=
  startsWord ["struct"] ts || (startsWord ["union"] ts && startsGroup .brace (next ts))

/-- A field with a name.  The type of a field that is left open may be a struct without a name, which
keeps its spelling. -/
def namedField (g : Grammar) : Rule StructField := do
  let attributes ← attributes g
  discard visibility?
  let isOpen ← sees (startsWord ["_"])
  let name ← if isOpen then anyWord else identifier
  mark ":"
  if isOpen && (← sees startsNameless) then
    let (_, trees) ← apart <| asRead (fun _ => true) do
      word ["struct", "union"]
      g.fields
    write trees
    return ⟨attributes, name, ⟨trees, none⟩⟩
  return ⟨attributes, name, ← writtenType g⟩

/-- Fields with names, in braces. -/
def namedFields (g : Grammar) : Rule (List StructField) :=
  within .brace (commas (namedField g))

/-- Fields without names, in round brackets. -/
def unnamedFields (g : Grammar) : Rule Unit :=
  within .round do
    discard <| commas do
      discard (attributes g)
      discard visibility?
      discard (g.type true)

/-- What follows the name and the parameters of a struct.  The first result tells whether there is a
`where`; it stands behind fields without names, and in front of all else. -/
def structBody (g : Grammar) : Rule (Bool × StructBody) := do
  let conditional ← conditions? g
  let ts ← rest
  if !conditional && startsGroup .round ts then
    unnamedFields g
    let conditional ← conditions? g
    mark ";"
    return (conditional, .unnamed)
  else if startsGroup .brace ts then return (conditional, .named (← namedFields g))
  else
    mark ";"
    return (conditional, .unit)

/-- A struct, with the attributes that stand in front of it. -/
def struct (g : Grammar) (attributes : List Attribute) : Rule StructDeclaration := do
  let (_, visibility) ← apart visibility?
  write visibility
  word ["struct"]
  let name ← identifier
  let count ← parameters? g
  let (conditional, body) ← structBody g
  return { attributes, visibility, name, isGeneric := decide (0 < count) || conditional, body }

end VersionedRecords.Source.Rule
