import VersionedRecords.Expansion.Phrases

/-!
The generated type of changes.
-/

namespace VersionedRecords.Blueprint

open Source Source.Token

def changeStruct (b : Blueprint) : StructItem where
  attributes :=
    Token.documentation ("Structural diff of [`" ++ b.name ++ "`].")
      ++ derive "Debug, Clone, PartialEq"
  visibility := b.visibility
  name := b.changeName
  fields :=
    ⟨[], "delta_type", intentType⟩ :: b.keyItem :: b.fieldItems fun f => optional (f.use "Delta")

/-- The functions of a change that go with one field.  A map of sub-records has one for all of their
changes. -/
def ValueField.changeFunctions (f : ValueField) : List Function :=
  [⟨some (f.about "Change carried for " ", if any."), f.name, selfParameter,
      optional (code "&" ++ f.use "Delta"), ownThen f.name ".as_ref()"⟩,
    ⟨some (f.about "Whether the delta carries a change for " "."), f.derivedName "has_" "",
      selfParameter, code "bool", ownThen f.name ".is_some()"⟩]
  ++ match f.shape, f.arguments with
    | .modelMap, [_, model] =>
      [⟨some (f.about "Nested deltas of every " " entry."), f.derivedName "" "_flatten",
        selfParameter,
        applied "::std::vec::Vec" (code "&<" ++ model ++ code "as ::delta_kit::Model>::Delta"),
        ownThen f.name ".iter().flatten().map(|entry| entry.value()).collect()"⟩]
    | _, _ => []

/-- The functions of a change's own. -/
def changeFunctions (b : Blueprint) : List Function :=
  b.keyFunction :: b.fields.flatMap ValueField.changeFunctions

def changeInherent (b : Blueprint) : Implementation := .inherent b.changeName b.changeFunctions

/-- The functions that every kind of change has. -/
def changeTrait (b : Blueprint) : Implementation where
  trait := code "::delta_kit::ModelDelta"
  subject := b.changeName
  types := [("Model", [.word b.name])]
  functions :=
    [⟨none, "delta_type", selfParameter, intentType, code "self.delta_type"⟩,
      b.commonKeyFunction,
      ⟨none, "has_changes", selfParameter, code "bool",
        code "false" ++ b.fields.flatMap fun f => code "||" ++ ownThen f.name ".is_some()"⟩,
      ⟨none, "to_delta_builder", selfParameter, [.word b.accumulatorName],
        construct [.word b.accumulatorName]
          (("state", code "::delta_kit::DeltaTypeState::new(self.delta_type)")
            :: (b.key.name, cloned (own b.key.name))
            :: b.fieldValues fun f =>
              code "::delta_kit::DeltaSlot::from_delta"
                ++ inside .round (ownThen f.name ".as_ref()"))⟩]
  constants := []

def changeTokens (b : Blueprint) : List Token :=
  b.changeStruct.tokens ++ b.changeInherent.tokens ++ b.changeTrait.tokens

end VersionedRecords.Blueprint
