import VersionedRecords.Source.Lexer

/-!
Token trees: tokens in which every pair of brackets with what is between them is one tree.
-/

namespace VersionedRecords.Source

inductive Tree
  | leaf (token : Token)
  | group (bracket : Bracket) (content : List Tree)

namespace Tree

@[match_pattern] abbrev word (s : String) : Tree := leaf (.word s)

@[match_pattern] abbrev mark (c : Char) (joined : Bool) : Tree := leaf (.mark c joined)

mutual

/-- The tokens of a tree. -/
def tokens : Tree → List Token
  | leaf t => [t]
  | group b content => .enter b :: allTokens content ++ [.leave b]

/-- The tokens of some trees. -/
def allTokens : List Tree → List Token
  | [] => []
  | t :: rest => t.tokens ++ allTokens rest

end

/-- Puts trees together.  `outer` holds the brackets that are open, each with the trees in front of
it; `done` holds the trees behind the last of them; both have the latest first. -/
def build? : List (Bracket × List Tree) → List Tree → List Token → Option (List Tree)
  | [], done, [] => some done.reverse
  | _ :: _, _, [] => none
  | outer, done, .enter b :: rest => build? ((b, done) :: outer) [] rest
  | (b', front) :: outer, done, .leave b :: rest =>
    if b = b' then build? outer (group b done.reverse :: front) rest else none
  | [], _, .leave _ :: _ => none
  | outer, done, t :: rest => build? outer (leaf t :: done) rest

/-- The trees of some tokens, if their brackets match. -/
def ofTokens? (ts : List Token) : Option (List Tree) := build? [] [] ts

/-- The trees of a text. -/
def parse? (s : String) : Option (List Tree) := Token.ofSource? s >>= ofTokens?

/-- Reads punctuation marks that are joined to each other. -/
def marks? : List Char → List Tree → Option (List Tree)
  | [], ts => some ts
  | [c], mark d _ :: rest => if c = d then some rest else none
  | c :: cs, mark d true :: rest => if c = d then marks? cs rest else none
  | _, _ => none

/-- Whether joined punctuation marks stand at the front. -/
def startsWith (s : String) (ts : List Tree) : Bool := (marks? s.toList ts).isSome

/-- Whether one of some words stands at the front. -/
def startsWord (words : List String) : List Tree → Bool
  | word w :: _ => words.contains w
  | _ => false

/-- Whether a group in certain brackets stands at the front. -/
def startsGroup (b : Bracket) : List Tree → Bool
  | group b' _ :: _ => b == b'
  | _ => false

/-- Whether a lifetime stands at the front: an apostrophe with a word. -/
def startsLifetime : List Tree → Bool
  | mark '\'' _ :: word _ :: _ => true
  | _ => false

/-- What follows the first tree; a lifetime counts as one. -/
def next : List Tree → List Tree
  | mark '\'' _ :: word _ :: rest => rest
  | _ :: rest => rest
  | [] => []

end Tree

/-- The words that are no identifiers. -/
def keywords : List String :=
  ["_", "abstract", "as", "async", "await", "become", "box", "break", "const", "continue",
   "crate", "do", "dyn", "else", "enum", "extern", "false", "final", "fn", "for", "if", "impl",
   "in", "let", "loop", "macro", "match", "mod", "move", "mut", "override", "priv", "pub",
   "ref", "return", "Self", "self", "static", "struct", "super", "trait", "true", "try", "type",
   "typeof", "unsafe", "unsized", "use", "virtual", "where", "while", "yield"]

def isIdentifier (word : String) : Bool := !keywords.contains word

/-- Whether an identifier stands at the front. -/
def Tree.startsIdentifier : List Tree → Bool
  | word w :: _ => isIdentifier w
  | _ => false

/-- A word without the mark of a raw identifier. -/
def bareWord (word : String) : String :=
  match word.toList with
  | 'r' :: '#' :: rest => String.ofList rest
  | _ => word

end VersionedRecords.Source
