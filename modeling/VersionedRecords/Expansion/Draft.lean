import VersionedRecords.Expansion.Phrases

/-!
The generated type of drafts.
-/

namespace VersionedRecords.Blueprint

open Source Source.Token

def draftStruct (b : Blueprint) : StructItem where
  attributes :=
    Token.documentation ("Mutable working copy of [`" ++ b.name ++ "`].") ++ derive "Debug"
  visibility := b.visibility
  name := b.draftName
  fields :=
    ⟨[], "reference", optional (shared b.name)⟩ :: ⟨[], "last_delta_type", optional intentType⟩
      :: b.keyItem :: b.fieldItems fun f => applied "::delta_kit::Slot" f.type

/-- The functions of a draft that go with one field.  A field that can be shown as it is has one to
read it. -/
def ValueField.draftFunctions (f : ValueField) : List Function :=
  (if f.shape.readable then
    [⟨some (f.about "Read " " without materializing it."), f.name, selfParameter,
      code "&" ++ f.use "Working", ownThen f.name ".get()"⟩]
  else [])
  ++ [⟨some (f.about "Materialize " " and borrow it mutably."), f.derivedName "" "_mut",
      mutableSelf, code "&mut" ++ f.use "Working", ownThen f.name ".touch()"⟩,
    ⟨some (f.about "Replace " "."), f.derivedName "set_" "",
      mutableSelf ++ code ", value:" ++ f.use "Working", mutableResult,
      ownThen f.name ".set(value); self"⟩]

/-- The functions of a draft's own. -/
def draftFunctions (b : Blueprint) : List Function :=
  b.keyFunction :: b.fields.flatMap ValueField.draftFunctions

def draftInherent (b : Blueprint) : Implementation := .inherent b.draftName b.draftFunctions

/-- The functions that start a draft: from nothing, and from a snapshot. -/
def draftStarts (b : Blueprint) : List Function :=
  [⟨none, "new", b.keyParameter, code "Self",
      construct (code "Self")
        (("reference", noneValue) :: ("last_delta_type", noneValue) :: (b.key.name, code "key")
          :: b.fieldValues fun _ => code "::delta_kit::Slot::zeroed()")⟩,
    ⟨none, "from_reference", code "reference:" ++ shared b.name, code "Self",
      construct (code "Self")
        ((b.key.name, cloned (fieldOf "reference" b.key.name))
          :: b.fieldValues (fun f =>
            code "::delta_kit::Slot::deferred"
              ++ inside .round (cloned (fieldOf "reference" f.name)))
          ++ [("last_delta_type", noneValue), ("reference", someValue (code "reference"))])⟩]

/-- The functions that ask for the state of a draft, and set its last intent. -/
def draftState (b : Blueprint) : List Function :=
  [b.commonKeyFunction,
    ⟨none, "reference", selfParameter, optional (code "&" ++ shared b.name),
      code "self.reference.as_ref()"⟩,
    ⟨none, "last_delta_type", selfParameter, optional intentType, code "self.last_delta_type"⟩,
    ⟨none, "set_last_delta_type",
      mutableSelf ++ code ", delta_type:" ++ optional intentType ++ code ",", mutableResult,
      code "self.last_delta_type = delta_type; self"⟩,
    ⟨none, "is_touched", selfParameter, code "bool",
      code "false" ++ b.fields.flatMap fun f => code "||" ++ ownThen f.name ".is_touched()"⟩,
    ⟨none, "reset", mutableSelf, mutableResult,
      b.fields.flatMap (fun f => ownThen f.name "= ::delta_kit::Slot::zeroed();")
        ++ code "self.last_delta_type =" ++ noneValue ++ code "; self"⟩,
    ⟨none, "init", mutableSelf, mutableResult,
      b.fields.flatMap (fun f => ownThen f.name ".init();") ++ code "self"⟩]

/-- The function that makes a snapshot.  A deleted draft gives none, and one that was never touched
gives the snapshot that it started from. -/
def draftBuild (b : Blueprint) : Function where
  documentation := none
  name := "build"
  parameters := selfParameter
  result := optional (shared b.name)
  body :=
    code "if self.last_delta_type ==" ++ someValue (code "::delta_kit::DeltaType::Delete")
      ++ inside .brace (code "return" ++ noneValue ++ code ";")
      ++ code "if !::delta_kit::ModelBuilder::is_touched(self)"
      ++ inside .brace
        (code "if let" ++ someValue (code "reference") ++ code "= &self.reference"
          ++ inside .brace
            (code "return" ++ someValue (code "::std::sync::Arc::clone(reference)") ++ code ";"))
      ++ someValue (code "::std::sync::Arc::new" ++ inside .round
        (construct [.word b.name]
          ((b.key.name, cloned (own b.key.name))
            :: b.fieldValues fun f => ownThen f.name ".freeze()")))

/-- The function that applies a change. -/
def draftApply (b : Blueprint) : Function where
  documentation := none
  name := "apply_delta"
  parameters := mutableSelf ++ code ", delta: &" ++ [.word b.changeName]
  result := fallible mutableResult
  body :=
    sameKeyCheck "apply_delta" b.key.name "delta"
      ++ code "if delta.delta_type == ::delta_kit::DeltaType::Delete"
      ++ inside .brace
        (code "::delta_kit::__private::tracing::debug!"
          ++ inside .round
            (code "model =" ++ ofText b.name :: code ", key = ?" ++ own b.key.name ++ code ","
              ++ [ofText "applied delete"])
          ++ code "; ::delta_kit::ModelBuilder::reset(self); self.last_delta_type ="
          ++ someValue (code "::delta_kit::DeltaType::Delete") ++ code "; return"
          ++ okValue (code "self") ++ code ";")
      ++ code "self.last_delta_type =" ++ someValue (code "delta.delta_type") ++ code ";"
      ++ b.fields.flatMap (fun f =>
        ifChange (code "&" ++ fieldOf "delta" f.name) (ownThen f.name ".apply(change)?;"))
      ++ okValue (code "self")

/-- The function that writes down how a draft differs from a snapshot. -/
def draftReconcile (b : Blueprint) : Function where
  documentation := none
  name := "reconcile_into"
  parameters :=
    selfParameter ++ code ", deltas: &mut" ++ .word b.accumulatorName :: code ", reference: &"
      ++ .word b.name :: code ","
  result := fallible (code "()")
  body :=
    sameKeyCheck "reconcile" b.key.name "deltas" ++ sameKeyCheck "reconcile" b.key.name "reference"
      ++ b.fields.flatMap (fun f =>
        ifChange
          (ownThen f.name ".diff"
            ++ inside .round (code "&" ++ fieldOf "reference" f.name) ++ code "?")
          (fieldOf "deltas" f.name ++ code ".add(&change)?;"))
      ++ okValue (code "()")

/-- The functions that every kind of draft has. -/
def draftTrait (b : Blueprint) : Implementation where
  trait := code "::delta_kit::ModelBuilder"
  subject := b.draftName
  types := [("Model", [.word b.name])]
  functions := b.draftStarts ++ b.draftState ++ [b.draftBuild, b.draftApply, b.draftReconcile]
  constants := []

def draftTokens (b : Blueprint) : List Token :=
  b.draftStruct.tokens ++ b.draftInherent.tokens ++ b.draftTrait.tokens

end VersionedRecords.Blueprint
