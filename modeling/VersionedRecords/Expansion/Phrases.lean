import VersionedRecords.Expansion.Blueprint
import VersionedRecords.Source.Item

/-!
Phrases that generated code uses again and again: the types that go with a field, the names of the
generated types, and access to the fields of the receiver.
-/

namespace VersionedRecords.Blueprint

open Source Source.Token

/-- The type that goes with a field in one of its uses. -/
def ValueField.use (f : ValueField) (part : String) : List Token :=
  code "<" ++ f.type ++ code "as ::delta_kit::FieldKind>::" ++ [.word part]

/-- The name of a function that is made from the name of a field. -/
def ValueField.derivedName (f : ValueField) (front behind : String) : String :=
  front ++ bareWord f.name ++ behind

/-- A text that speaks of a field. -/
def ValueField.about (f : ValueField) (front behind : String) : String :=
  front ++ "`" ++ f.name ++ "`" ++ behind

def draftName (b : Blueprint) : String := bareWord b.name ++ "Builder"

def changeName (b : Blueprint) : String := bareWord b.name ++ "Delta"

def accumulatorName (b : Blueprint) : String := bareWord b.name ++ "DeltaBuilder"

/-- A type or a value in angle brackets behind a path. -/
def applied (path : String) (ts : List Token) : List Token :=
  code path ++ code "<" ++ ts ++ code ">"

def optional (ts : List Token) : List Token := applied "::std::option::Option" ts

def shared (name : String) : List Token := applied "::std::sync::Arc" [.word name]

def fallible (ts : List Token) : List Token := applied "::delta_kit::Result" ts

def intentType : List Token := code "::delta_kit::DeltaType"

def noneValue : List Token := code "::std::option::Option::None"

def someValue (ts : List Token) : List Token :=
  code "::std::option::Option::Some" ++ inside .round ts

def okValue (ts : List Token) : List Token := code "::std::result::Result::Ok" ++ inside .round ts

/-- A clone of what a place holds. -/
def cloned (place : List Token) : List Token :=
  code "::std::clone::Clone::clone" ++ inside .round (code "&" ++ place)

/-- A field of something that has a name. -/
def fieldOf (holder name : String) : List Token := [.word holder] ++ code "." ++ [.word name]

/-- A field of the receiver. -/
def own (name : String) : List Token := fieldOf "self" name

/-- A field of the receiver with what is done to it. -/
def ownThen (name : String) (call : String) : List Token := own name ++ code call

/-- A pattern for a change that is there, and what is done with it. -/
def ifChange (source : List Token) (action : List Token) : List Token :=
  code "if let ::std::option::Option::Some(change) =" ++ source ++ inside .brace action

/-- A check that two things have the same key, under the name of the operation. -/
def sameKeyCheck (operation key other : String) : List Token :=
  code "::delta_kit::ensure_same_key"
    ++ inside .round (ofText operation :: code ", &" ++ own key ++ code ", &" ++ fieldOf other key)
    ++ code "?;"

def selfParameter : List Token := code "&self"

def mutableSelf : List Token := code "&mut self"

def mutableResult : List Token := code "&mut Self"

/-- A reference to the type of the key. -/
def keyReference (b : Blueprint) : List Token := code "&" ++ b.key.type

/-- A parameter that takes a key. -/
def keyParameter (b : Blueprint) : List Token := code "key:" ++ b.key.type

/-- The function that gives the key under the name of its field. -/
def keyFunction (b : Blueprint) : Function :=
  ⟨some ("The `" ++ b.key.name ++ "` identity field."), b.key.name, selfParameter, b.keyReference,
    code "&" ++ own b.key.name⟩

/-- The function that gives the key under its common name. -/
def commonKeyFunction (b : Blueprint) : Function :=
  ⟨none, "key", selfParameter, b.keyReference, code "&" ++ own b.key.name⟩

/-- The field that holds the key. -/
def keyItem (b : Blueprint) : FieldItem := ⟨[], b.key.name, b.key.type⟩

/-- The fields of one of the generated types that go with the fields of the record. -/
def fieldItems (b : Blueprint) (type : ValueField → List Token) : List FieldItem :=
  b.fields.map fun f => ⟨[], f.name, type f⟩

/-- The values of the fields in a construction. -/
def fieldValues (b : Blueprint) (value : ValueField → List Token) : List (String × List Token) :=
  b.fields.map fun f => (f.name, value f)

end VersionedRecords.Blueprint
