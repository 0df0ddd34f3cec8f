import VersionedRecords.Digest.Sha256
import VersionedRecords.Key
import VersionedRecords.Text.Blank

/-!
Fingerprints: a number that tells apart the shapes of records.  A shape is the collection of its
fields, each a name with the bare name of a type, in no particular order.  The shape is written out
as a stream of bytes, which says all there is to know about it, and the fingerprint is cut from the
digest of the stream.
-/

namespace VersionedRecords

namespace Text

/-- What stands behind the last `::` of a text that is given from its end. -/
def beforePathMark : List Char → List Char
  | ':' :: ':' :: _ => []
  | c :: rest => c :: beforePathMark rest
  | [] => []

/-- The last part of a path; the whole text if it is no path. -/
def lastPathPart (s : List Char) : List Char := (beforePathMark s.reverse).reverse

/-- The bare name of a type: no arguments, no path, no blanks around it. -/
def bareTypeName (s : String) : String :=
  String.ofList (lastPathPart (trim (s.toList.takeWhile (· != '<'))))

end Text

namespace Fingerprint

/-- A field's name and the bare name of its type. -/
abbrev Shape := List (String × String)

/-- The order in which fields are written out: by name, then by type. -/
def precedes (a b : String × String) : Bool :=
  Key.precedes (.text a.1) (.text b.1) || (a.1 == b.1 && Key.precedes (.text a.2) (.text b.2))

/-- How many bytes of a text are written out. -/
def byteLimit : Nat := 65535

/-- A text as the number of its bytes, in two bytes, and the bytes themselves. -/
def frame (s : String) : List UInt8 :=
  let bytes := s.toUTF8.data.toList.take byteLimit
  Sha256.bigEndian 2 bytes.length ++ bytes

def frameField (field : String × String) : List UInt8 := frame field.1 ++ frame field.2

/-- A shape, written out with its fields in order. -/
def stream (shape : Shape) : List UInt8 :=
  (shape.mergeSort fun a b => !precedes b a).flatMap frameField

/-- The number that some bytes stand for, the least significant one first. -/
def littleEndian : List UInt8 → Nat
  | [] => 0
  | b :: rest => b.toNat + 256 * littleEndian rest

/-- The fingerprint of a shape: the first eight bytes of the digest of what is written out. -/
def ofShape (shape : Shape) : Nat := littleEndian ((Sha256.digest (stream shape)).take 8)

end Fingerprint

end VersionedRecords
