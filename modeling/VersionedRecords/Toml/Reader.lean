import VersionedRecords.Toml.Number
import VersionedRecords.Toml.Tables

/-!
Reading TOML documents, version 1.0.  A document becomes a tree of the same sort as a JSON text;
numbers that are not whole, dates and times are read but not told apart in it.
-/

namespace VersionedRecords.Toml

/-- Reads a key, the equals sign and the blanks around it. -/
def assignedKey? (cs : List Char) : Option (List String × String × List Char) := do
  let (parts, rest) ← key? cs
  match rest with
  | '=' :: rest => return (parts.dropLast, ← parts.getLast?, skipBlanks rest)
  | _ => none

mutual

/-- Reads a value; `depth` is how many more levels of nesting are allowed. -/
def value? : Nat → Nat → List Char → Option (Json × List Char)
  | 0, _, _ => none
  | fuel + 1, depth, cs =>
    match cs with
    | '[' :: rest => do
      if depth = 0 then none
      let (items, rest) ← items? fuel (depth - 1) rest
      return (.list items, rest)
    | '\x7b' :: rest => do
      if depth = 0 then none
      let (members, rest) ← members? fuel (depth - 1) [] (skipBlanks rest)
      return (.object (Item.membersToJson members), rest)
    | 't' :: rest => do return (.bool true, ← Json.dropWord? "rue" rest)
    | 'f' :: rest => do return (.bool false, ← Json.dropWord? "alse" rest)
    | c :: _ =>
      if c = '"' ∨ c = '\'' then do
        let (s, rest) ← string? cs
        return (.text s, rest)
      else scalar? cs
    | [] => none

/-- Reads the items of a list, and the closing bracket.  A comma may stand behind the last item. -/
def items? : Nat → Nat → List Char → Option (List Json × List Char)
  | 0, _, _ => none
  | fuel + 1, depth, cs => do
    match ← skipLines? cs.length cs with
    | ']' :: rest => return ([], rest)
    | cs =>
      let (j, rest) ← value? fuel depth cs
      match ← skipLines? rest.length rest with
      | ',' :: rest => do
        let (js, rest) ← items? fuel depth rest
        return (j :: js, rest)
      | ']' :: rest => return ([j], rest)
      | _ => none

/-- Reads the members of a table on one line, and the closing brace, adding to those that were read
before.  No comma may stand behind the last member. -/
def members? : Nat → Nat → Members → List Char → Option (Members × List Char)
  | 0, _, _, _ => none
  | fuel + 1, depth, done, cs =>
    match done, cs with
    | [], '\x7d' :: rest => some ([], rest)
    | _, _ => do
      let (path, last, rest) ← assignedKey? cs
      let (j, rest) ← value? fuel depth rest
      let done ← done.store last j path
      match skipBlanks rest with
      | ',' :: rest => members? fuel depth done rest
      | '\x7d' :: rest => return (done, rest)
      | _ => none

end

/-- A document so far: its members, and the path of the table that is open. -/
structure Document where
  members : Members := []
  path : List String := []

/-- Reads the header of a table. -/
def header? (doc : Document) (cs : List Char) : Option (Document × List Char) := do
  let (path, rest) ← key? cs
  let rest ← char? ']' rest
  let last ← path.getLast?
  return ({ members := ← doc.members.within (Members.openTable last) path.dropLast, path },
    ← endLine? rest)

/-- Reads the header of a table that may come again. -/
def repeatedHeader? (doc : Document) (cs : List Char) : Option (Document × List Char) := do
  let (path, rest) ← key? cs
  let rest ← char? ']' rest >>= char? ']'
  let last ← path.getLast?
  return ({ members := ← doc.members.within (Members.openNext last) path.dropLast, path },
    ← endLine? rest)

/-- Reads a line that gives a value to a key. -/
def assignment? (doc : Document) (cs : List Char) : Option (Document × List Char) := do
  let (path, last, rest) ← assignedKey? cs
  let (j, rest) ← value? (2 * rest.length + 2) (depthLimit - 1) rest
  return ({ doc with members := ← doc.members.within (Members.store last j path) doc.path },
    ← endLine? rest)

/-- Reads the lines of a document. -/
def lines? : Nat → Document → List Char → Option Document
  | 0, _, _ => none
  | fuel + 1, doc, cs =>
    match skipBlanks cs with
    | [] => some doc
    | '[' :: '[' :: rest => do
      let (doc, rest) ← repeatedHeader? doc rest
      lines? fuel doc rest
    | '[' :: rest => do
      let (doc, rest) ← header? doc rest
      lines? fuel doc rest
    | c :: rest =>
      if c = '#' ∨ c = '\n' ∨ c = '\r' then endLine? (c :: rest) >>= lines? fuel doc
      else do
        let (doc, rest) ← assignment? doc (c :: rest)
        lines? fuel doc rest

/-- The tree of a document.  A byte order mark in front does not count. -/
def parse? (s : String) : Option Json := do
  let cs := match s.toList with
    | '\uFEFF' :: rest => rest
    | cs => cs
  let doc ← lines? (cs.length + 1) {} cs
  return .object (Item.membersToJson doc.members)

end VersionedRecords.Toml
