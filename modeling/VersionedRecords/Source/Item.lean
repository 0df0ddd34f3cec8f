import VersionedRecords.Source.Lexer

/-!
Items that are written out: structs with named fields, and implementations with their functions.  An
item keeps the names of its parts, so that one can speak of them without reading its tokens.
-/

namespace VersionedRecords.Source

namespace Token

/-- Some tokens in brackets. -/
def inside (b : Bracket) (ts : List Token) : List Token := .enter b :: ts ++ [.leave b]

/-- A string of documentation, as an attribute. -/
def documentation (text : String) : List Token := docTokens false text.toList

end Token

open Token (code inside)

/-- A named field with its type. -/
structure FieldItem where
  attributes : List Token
  name : String
  type : List Token

def FieldItem.tokens (f : FieldItem) : List Token :=
  f.attributes ++ .word f.name :: code ":" ++ f.type ++ code ","

/-- A struct with named fields. -/
structure StructItem where
  attributes : List Token
  visibility : List Token
  name : String
  fields : List FieldItem

def StructItem.tokens (s : StructItem) : List Token :=
  s.attributes ++ s.visibility ++ code "struct" ++ .word s.name
    :: inside .brace (s.fields.flatMap FieldItem.tokens)

/-- A function of an implementation. -/
structure Function where
  /-- The documentation of a public function.  What a trait asks for has neither. -/
  documentation : Option String
  name : String
  parameters : List Token
  result : List Token
  body : List Token

def Function.tokens (f : Function) : List Token :=
  (match f.documentation with
    | some text => Token.documentation text ++ code "pub"
    | none => [])
  ++ code "fn" ++ .word f.name :: inside .round f.parameters
  ++ code "->" ++ f.result ++ inside .brace f.body

/-- An implementation for a type. -/
structure Implementation where
  /-- The trait that is implemented; an inherent implementation has none. -/
  trait : List Token
  subject : String
  /-- The associated types. -/
  types : List (String × List Token)
  functions : List Function
  /-- Constants, as they are written. -/
  constants : List Token

namespace Implementation

/-- An inherent implementation with nothing but functions. -/
def inherent (subject : String) (functions : List Function) : Implementation :=
  ⟨[], subject, [], functions, []⟩

def tokens (i : Implementation) : List Token :=
  code "impl" ++ (if i.trait.isEmpty then [] else i.trait ++ code "for") ++ .word i.subject
    :: inside .brace
      (i.types.flatMap (fun t => code "type" ++ .word t.1 :: code "=" ++ t.2 ++ code ";")
        ++ i.functions.flatMap Function.tokens ++ i.constants)

end Implementation

/-- A value of a struct: what is constructed, and the fields with their values. -/
def construct (head : List Token) (fields : List (String × List Token)) : List Token :=
  head ++ inside .brace (fields.flatMap fun f => .word f.1 :: code ":" ++ f.2 ++ code ",")

/-- The attribute that derives some traits. -/
def derive (traits : String) : List Token :=
  code "#" ++ inside .square (code "derive" ++ inside .round (code traits))

end VersionedRecords.Source
