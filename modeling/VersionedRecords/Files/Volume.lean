import VersionedRecords.Key
import VersionedRecords.Text.Blank

/-!
Volumes: directories that hold files and further directories.  A path is a text; it is followed part
by part from the top of the volume, and every part but the last has to be a directory.
-/

namespace VersionedRecords

/-- Why a file cannot be read or written. -/
inductive FileError
  | missing
  | occupied
  | notDirectory
  | isDirectory
  | nameTooLong
  | zeroInName
  | notText
deriving DecidableEq, Repr

def FileError.message : FileError → String
  | missing => "No such file or directory (os error 2)"
  | occupied => "File exists (os error 17)"
  | notDirectory => "Not a directory (os error 20)"
  | isDirectory => "Is a directory (os error 21)"
  | nameTooLong => "File name too long (os error 36)"
  | zeroInName => "file name contained an unexpected NUL byte"
  | notText => "stream did not contain valid UTF-8"

/-- A place in a volume: the names of the directories that lead to it and its own. -/
abbrev Location := List String

namespace Path

/-- The parts of a path; several slashes count as one. -/
def parts (path : String) : List String :=
  ((Text.splitAt '/' path.toList).map String.ofList).filter (· != "")

/-- A path below another one.  A path that starts at the top stays as it is. -/
def join (base path : String) : String :=
  if path.toList.head? = some '/' ∨ base = "" then path
  else if base.toList.getLast? = some '/' then base ++ path
  else base ++ "/" ++ path

/-- How many bytes a path may have. -/
def sizeLimit : Nat := 4095

/-- Refuses what cannot be a path. -/
def check (path : String) : Except FileError Unit :=
  if '\x00' ∈ path.toList then .error .zeroInName
  else if sizeLimit < path.utf8ByteSize then .error .nameTooLong
  else .ok ()

/-- The parts without the full stops at their end, which are given first here. -/
def skipDots (reversed : List String) : List String := reversed.dropWhile (· == ".")

end Path

/-- What a name in a directory stands for. -/
inductive Entry
  | file (content : String)
  | directory (entries : List (String × Entry))

namespace Entry

def isDirectory : Entry → Bool
  | file _ => false
  | directory _ => true

/-- What a name in a directory stands for, if there is anything. -/
def child? : Entry → String → Option Entry
  | file _, _ => none
  | directory entries, name => entries.lookup name

/-- Lets a name in a directory stand for something, at the place of what it stood for before. -/
def setChild (name : String) (e : Entry) : List (String × Entry) → List (String × Entry)
  | [] => [(name, e)]
  | old :: rest => if old.1 = name then (name, e) :: rest else old :: setChild name e rest

/-- Puts something at a place below, if the way there leads through directories. -/
def put (new : Entry) : Location → Entry → Entry
  | [], _ => new
  | _ :: _, file content => file content
  | [name], directory entries => directory (setChild name new entries)
  | name :: rest, directory entries =>
    match entries.lookup name with
    | some e => directory (setChild name (put new rest e) entries)
    | none => directory entries

mutual

/-- The files at and below a place, by the ways that lead to them. -/
def files : Entry → List (Location × String)
  | file content => [([], content)]
  | directory entries => filesIn entries

/-- The files in a directory with some entries. -/
def filesIn : List (String × Entry) → List (Location × String)
  | [] => []
  | e :: rest => filesUnder e ++ filesIn rest

/-- The files that a name leads to. -/
def filesUnder : String × Entry → List (Location × String)
  | (name, e) => (files e).map fun f => (name :: f.1, f.2)

end

end Entry

/-- A volume is known by its top directory. -/
structure Volume where
  top : Entry := .directory []

namespace Volume

/-- What there is at a place. -/
def entry? (v : Volume) (l : Location) : Option Entry :=
  l.foldl (fun e name => e.bind fun e => e.child? name) (some v.top)

/-- The content of the file at a place. -/
def content? (v : Volume) (l : Location) : Option String :=
  match v.entry? l with
  | some (.file content) => some content
  | _ => none

/-- How many bytes a name may have. -/
def nameLimit : Nat := 255

/-- Follows some parts from a place to another one, and gives the place with what there is.  `way` holds
the directories that have been entered below the top, the latest first. -/
def follow (v : Volume) (way : List (String × Entry)) :
    List String → Except FileError (Location × Option Entry)
  | [] => .ok ((way.map Prod.fst).reverse, some (here way))
  | name :: rest =>
    if name = "." then v.follow way rest
    else if name = ".." then v.follow way.tail rest
    else if nameLimit < name.utf8ByteSize then .error .nameTooLong
    else
      let there := (here way).child? name
      if rest = [] then .ok ((name :: way.map Prod.fst).reverse, there)
      else
        match there with
        | some (.directory entries) => v.follow ((name, .directory entries) :: way) rest
        | some (.file _) => .error .notDirectory
        | none => .error .missing
where
  here : List (String × Entry) → Entry
    | [] => v.top
    | e :: _ => e.2

/-- Puts something at a place. -/
def put (v : Volume) (l : Location) (e : Entry) : Volume := ⟨e.put l v.top⟩

/-- Whether some parts lead to a directory. -/
def leadsToDirectory (v : Volume) (parts : List String) : Bool :=
  match v.follow [] parts with
  | .ok (_, there) => there.any Entry.isDirectory
  | .error _ => false

/-- Makes one directory. -/
def makeDirectory (v : Volume) (parts : List String) : Except FileError Volume :=
  match v.follow [] parts with
  | .ok (l, none) => .ok (v.put l (.directory []))
  | .ok (_, some _) => .error .occupied
  | .error e => .error e

/-- Makes one directory, unless it is there. -/
def ensureDirectory (v : Volume) (parts : List String) : Except FileError Volume :=
  match v.makeDirectory parts with
  | .ok v => .ok v
  | .error e => if v.leadsToDirectory parts then .ok v else .error e

/-- Makes a directory and those above it, where they are missing.  The parts are given from the last
to the first; `fuel` is at least their number. -/
def ensureAll : Nat → Volume → List String → Except FileError Volume
  | 0, v, _ => .ok v
  | fuel + 1, v, reversed =>
    match v.makeDirectory reversed.reverse with
    | .error .missing => do
      let above := Path.skipDots (Path.skipDots reversed).tail
      let v ← ensureAll fuel v above
      v.ensureDirectory reversed.reverse
    | _ => v.ensureDirectory reversed.reverse

/-- Makes the directory of a path and those above it, where they are missing. -/
def makeDirectories (v : Volume) (path : String) : Except FileError Volume := do
  Path.check path
  let parts := Path.parts path
  ensureAll (parts.length + 1) v parts.reverse

/-- Puts a file with the given content under a path, in place of one that is there. -/
def write (v : Volume) (path content : String) : Except FileError Volume := do
  Path.check path
  let (l, there) ← v.follow [] (Path.parts path)
  if there.any Entry.isDirectory then .error .isDirectory
  else .ok (v.put l (.file content))

/-- Makes a file under a path, and the directories above it where they are missing. -/
def plant (v : Volume) (path content : String) : Except FileError Volume := do
  let parts := Path.parts path
  let v ← ensureAll (parts.length + 1) v parts.reverse.tail
  v.write path content

/-- A place as a list of numbers, such that places are in order when the lists are: the names in a
directory by their characters, and what is in a directory right behind its name. -/
def orderCodes (l : Location) : List Nat :=
  l.flatMap fun name => name.toList.map (fun c => c.toNat + 1) ++ [0]

/-- The files below a directory, by their paths from it and in order. -/
def filesBelow (v : Volume) (l : Location) : List (Location × String) :=
  let found := ((v.entry? l).map Entry.files).getD []
  found.mergeSort fun a b => !Key.precedesList (orderCodes b.1) (orderCodes a.1)

end Volume

end VersionedRecords
