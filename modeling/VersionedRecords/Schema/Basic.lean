import VersionedRecords.Description.Basic

/-!
Schemas: the declarations from which the code of a family of records is generated.
-/

namespace VersionedRecords

/-- A field of a declared record or of a declared key. -/
structure FieldDeclaration where
  name : String
  /-- The type expression, as it was written. -/
  type : String
  role : FieldRole := .value
deriving DecidableEq, Repr

/-- A type that is defined elsewhere. -/
structure ImportDeclaration where
  name : String
  path : String
deriving DecidableEq, Repr

structure EnumDeclaration where
  name : String
  variants : List String
  /-- The variant that is the zero value, if the declaration names one. -/
  default : Option String
deriving DecidableEq, Repr

/-- A key that is made of several parts. -/
structure KeyDeclaration where
  name : String
  fields : List FieldDeclaration
deriving DecidableEq, Repr

/-- A record. -/
structure ModelDeclaration where
  name : String
  fields : List FieldDeclaration
deriving DecidableEq, Repr

structure Schema where
  /-- The directory for the generated code. -/
  output : String
  imports : List ImportDeclaration
  enums : List EnumDeclaration
  keys : List KeyDeclaration
  models : List ModelDeclaration
deriving DecidableEq, Repr

/-- The zero value of an enumeration: the variant that the declaration names, or else the first. -/
def EnumDeclaration.zero? (e : EnumDeclaration) : Option String := e.default.or e.variants.head?

def ModelDeclaration.keyFields (m : ModelDeclaration) : List FieldDeclaration :=
  m.fields.filter fun f => f.role == .key

/-- The names of all declared types, in the order in which they are looked at. -/
def Schema.declaredNames (s : Schema) : List String :=
  s.imports.map ImportDeclaration.name ++ s.enums.map EnumDeclaration.name
    ++ s.keys.map KeyDeclaration.name ++ s.models.map ModelDeclaration.name

end VersionedRecords
