import VersionedRecords.Source.Attribute
import VersionedRecords.Source.Grammar.Basic

/-!
Declarations of structs, as they are written.
-/

namespace VersionedRecords.Source

/-- A type as it is written, with the end of its path if it is a plain path. -/
structure WrittenType where
  trees : List Tree
  last : Option PathEnd

structure StructField where
  attributes : List Attribute
  name : String
  type : WrittenType

/-- What a struct is made of. -/
inductive StructBody
  | named (fields : List StructField)
  | unnamed
  | unit

structure StructDeclaration where
  attributes : List Attribute
  visibility : List Tree
  name : String
  /-- Whether there are generic parameters or a `where`. -/
  isGeneric : Bool
  body : StructBody

end VersionedRecords.Source
