import VersionedRecords.Description.Basic
import VersionedRecords.Expansion.Phrases

/-!
The description that goes with a blueprint, and how generated code writes it down.
-/

namespace VersionedRecords

open Source Source.Token

namespace Blueprint

def KeyField.describe (k : KeyField) : FieldDescription :=
  ⟨k.name, .key, .scalar, Text.bareTypeName (compact k.type), [compact k.type]⟩

/-- The bare name that enters the fingerprint: the type inside, or the marker of a collection. -/
def ValueField.bareName (f : ValueField) : String :=
  match f.shape with
  | .scalar | .attached | .nested => Text.bareTypeName (compact (f.arguments.headD []))
  | shape => shape.marker

def ValueField.describe (f : ValueField) : FieldDescription :=
  ⟨f.name, .value, f.shape, f.bareName, f.arguments.map compact⟩

/-- The description of a record; the key comes first wherever it was declared. -/
def describe (b : Blueprint) : Description :=
  ⟨b.name, b.key.describe :: b.fields.map ValueField.describe⟩

end Blueprint

/-- Some tokens with commas between the groups of them. -/
def separated (groups : List (List Token)) : List Token := (code ",").intercalate groups

/-- A description of a field as a value in code. -/
def FieldDescription.tokens (f : FieldDescription) : List Token :=
  construct (code "::delta_kit::FieldDescriptor")
    [("name", [ofText f.name]),
      ("modifier", code "::delta_kit::FieldModifier::" ++ [.word f.role.name]),
      ("kind", code "::delta_kit::ValueKind::" ++ [.word f.shape.marker]),
      ("type_name", [ofText f.typeName]),
      ("type_args", code "&"
        ++ inside .square (separated (f.typeArguments.map fun a => [ofText a])))]

/-- A description as a value in code. -/
def Description.tokens (d : Description) : List Token :=
  construct (code "::delta_kit::ModelDescriptor")
    [("name", [ofText d.name]),
      ("fields", code "&" ++ inside .square (separated (d.fields.map FieldDescription.tokens)))]

end VersionedRecords
