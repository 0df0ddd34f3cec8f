import VersionedRecords.Expansion.Description

/-!
The generated type of snapshots.
-/

namespace VersionedRecords.Blueprint

open Source Source.Token

/-- The struct of a record; it keeps what stood in front of the declaration and of its fields. -/
def snapshotStruct (b : Blueprint) : StructItem where
  attributes := b.attributes.flatMap Attribute.tokens ++ derive "Debug, Clone, PartialEq"
  visibility := b.visibility
  name := b.name
  fields :=
    ⟨b.key.attributes.flatMap Attribute.tokens, b.key.name, b.key.type⟩
      :: b.fields.map fun f => ⟨f.attributes.flatMap Attribute.tokens, f.name, f.use "Value"⟩

def ValueField.snapshotFunction (f : ValueField) : Function :=
  ⟨some (f.about "The " " field."), f.name, selfParameter, code "&" ++ f.use "Value",
    code "&" ++ own f.name⟩

/-- The functions that give a fresh draft and an empty accumulator. -/
def startFunctions (b : Blueprint) : List Function :=
  [⟨some " A fresh builder for `key` with every field at its zero value.", "builder",
      b.keyParameter, [.word b.draftName],
      code "<" ++ .word b.draftName :: code "as ::delta_kit::ModelBuilder>::new(key)"⟩,
    ⟨some " An empty delta accumulator for `key`.", "delta_builder",
      code "delta_type:" ++ intentType ++ code "," ++ b.keyParameter, [.word b.accumulatorName],
      code "<" ++ .word b.accumulatorName
        :: code "as ::delta_kit::ModelDeltaBuilder>::new(delta_type, key)"⟩]

/-- The functions of a snapshot's own. -/
def snapshotFunctions (b : Blueprint) : List Function :=
  b.keyFunction :: b.fields.map ValueField.snapshotFunction ++ b.startFunctions

/-- The constant that keeps the fingerprint of the declaration. -/
def fingerprintConstant (n : Nat) : List Token :=
  Token.documentation " Fingerprint recorded by the schema this model was generated from."
    ++ code "pub const SCHEMA_FINGERPRINT: u64 =" ++ .literal (toString n ++ "u64") :: code ";"

def snapshotInherent (b : Blueprint) : Implementation :=
  ⟨[], b.name, [], b.snapshotFunctions, (b.fingerprint.map fingerprintConstant).getD []⟩

/-- The functions that every kind of record has. -/
def snapshotTrait (b : Blueprint) : Implementation where
  trait := code "::delta_kit::Model"
  subject := b.name
  types :=
    [("Key", b.key.type), ("Builder", [.word b.draftName]), ("Delta", [.word b.changeName]),
      ("DeltaBuilder", [.word b.accumulatorName])]
  functions :=
    [⟨none, "descriptor", [], code "&'static ::delta_kit::ModelDescriptor",
        code "static DESCRIPTOR: ::delta_kit::ModelDescriptor =" ++ b.describe.tokens
          ++ code "; &DESCRIPTOR"⟩,
      ⟨none, "fingerprint", [], code "u64",
        code "static FINGERPRINT: ::std::sync::OnceLock<u64> = ::std::sync::OnceLock::new();"
          ++ code "*FINGERPRINT.get_or_init"
          ++ inside .round
            (code "|| <Self as ::delta_kit::Model>::descriptor().fingerprint()")⟩,
      b.commonKeyFunction,
      ⟨none, "empty", b.keyParameter, code "Self",
        construct (code "Self")
          ((b.key.name, code "key") :: b.fieldValues fun f => f.use "empty" ++ code "()")⟩]
  constants := []

def snapshotTokens (b : Blueprint) : List Token :=
  b.snapshotStruct.tokens ++ b.snapshotInherent.tokens ++ b.snapshotTrait.tokens

end VersionedRecords.Blueprint
