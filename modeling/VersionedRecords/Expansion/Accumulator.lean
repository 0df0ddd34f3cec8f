import VersionedRecords.Expansion.Phrases

/-!
The generated type of accumulators.
-/

namespace VersionedRecords.Blueprint

open Source Source.Token

def accumulatorStruct (b : Blueprint) : StructItem where
  attributes :=
    Token.documentation ("Accumulator merging [`" ++ b.changeName ++ "`]s into one.")
      ++ derive "Debug"
  visibility := b.visibility
  name := b.accumulatorName
  fields :=
    ⟨[], "state", code "::delta_kit::DeltaTypeState"⟩ :: b.keyItem
      :: b.fieldItems fun f => applied "::delta_kit::DeltaSlot" f.type

/-- The functions of an accumulator that go with one field. -/
def ValueField.accumulatorFunctions (f : ValueField) : List Function :=
  [⟨some (f.about "Accumulated change for " ", if any."), f.name, selfParameter,
      optional (f.use "Delta"), ownThen f.name ".build()"⟩,
    ⟨some (f.about "Merge a change for " "."), f.derivedName "add_" "",
      mutableSelf ++ code ", change: &" ++ f.use "Delta" ++ code ",", fallible mutableResult,
      ownThen f.name ".add(change)?;" ++ okValue (code "self")⟩]

/-- The functions of an accumulator's own. -/
def accumulatorFunctions (b : Blueprint) : List Function :=
  b.keyFunction :: b.fields.flatMap ValueField.accumulatorFunctions

def accumulatorInherent (b : Blueprint) : Implementation :=
  .inherent b.accumulatorName b.accumulatorFunctions

/-- The functions that ask for the intent of an accumulator and set it. -/
def accumulatorIntent : List Function :=
  [⟨none, "delta_type", selfParameter, intentType, code "self.state.current()"⟩,
    ⟨none, "initial_delta_type", selfParameter, intentType, code "self.state.initial()"⟩,
    ⟨none, "set_delta_type", mutableSelf ++ code ", delta_type:" ++ intentType, mutableResult,
      code "self.state.set(delta_type); self"⟩,
    ⟨none, "reset_delta_type", mutableSelf, mutableResult, code "self.state.reset(); self"⟩]

/-- The function that takes in a change. -/
def accumulatorAdd (b : Blueprint) : Function where
  documentation := none
  name := "add_delta"
  parameters := mutableSelf ++ code ", delta: &" ++ [.word b.changeName]
  result := fallible mutableResult
  body :=
    sameKeyCheck "add_delta" b.key.name "delta" ++ code "self.state.absorb(delta.delta_type);"
      ++ b.fields.flatMap (fun f =>
        ifChange (code "&" ++ fieldOf "delta" f.name) (ownThen f.name ".add(change)?;"))
      ++ okValue (code "self")

/-- The function that makes a change.  An update that changes nothing gives none. -/
def accumulatorBuild (b : Blueprint) : Function where
  documentation := none
  name := "build_delta"
  parameters := selfParameter
  result := optional [.word b.changeName]
  body :=
    code "let delta ="
      ++ construct [.word b.changeName]
        (("delta_type", code "self.state.current()") :: (b.key.name, cloned (own b.key.name))
          :: b.fieldValues fun f => ownThen f.name ".build()")
      ++ code "; if delta.delta_type == ::delta_kit::DeltaType::Update"
      ++ code "&& !::delta_kit::ModelDelta::has_changes(&delta)"
      ++ inside .brace (code "return" ++ noneValue ++ code ";") ++ someValue (code "delta")

/-- The functions that every kind of accumulator has. -/
def accumulatorTrait (b : Blueprint) : Implementation where
  trait := code "::delta_kit::ModelDeltaBuilder"
  subject := b.accumulatorName
  types := [("Model", [.word b.name])]
  functions :=
    ⟨none, "new", code "delta_type:" ++ intentType ++ code "," ++ b.keyParameter, code "Self",
        construct (code "Self")
          (("state", code "::delta_kit::DeltaTypeState::new(delta_type)")
            :: (b.key.name, code "key")
            :: b.fieldValues fun _ => code "::delta_kit::DeltaSlot::new()")⟩
      :: b.commonKeyFunction :: accumulatorIntent ++ [b.accumulatorAdd, b.accumulatorBuild]
  constants := []

def accumulatorTokens (b : Blueprint) : List Token :=
  b.accumulatorStruct.tokens ++ b.accumulatorInherent.tokens ++ b.accumulatorTrait.tokens

end VersionedRecords.Blueprint
