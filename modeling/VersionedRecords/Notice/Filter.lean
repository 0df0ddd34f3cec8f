import VersionedRecords.Notice
import VersionedRecords.Text.Alphanumeric
import VersionedRecords.Text.Blank
import VersionedRecords.Text.Cut
import VersionedRecords.Text.Pattern
import VersionedRecords.Text.Quoted

/-!
Which notices are shown, and how a shown notice looks as a line.  A filter is a list of directives.
Each gives a level to the notices that it is about, and of the directives about a notice the most
specific one counts.
-/

namespace VersionedRecords

/-- What a directive asks of a detail: that it is there, and perhaps that it has some value. -/
structure DetailRequest where
  name : String
  value : Option String
deriving DecidableEq, Repr

/-- A directive of a filter. -/
structure NoticeDirective where
  /-- How the names of the sources begin; without it the directive is about all sources. -/
  stem : Option String
  /-- The name of the activity during which notices arise. -/
  activity : Option String
  detail : Option DetailRequest
  /-- The level up to which notices are heard. -/
  rank : Nat
deriving DecidableEq, Repr

namespace NoticeDirective

/-- Whether a directive is about single notices.  Activities, and the values of their details, are
known only while an activity goes on, and no notice of this library belongs to one. -/
def isStatic (d : NoticeDirective) : Bool :=
  d.activity.isNone && d.detail.all fun r => r.value.isNone

/-- Whether a directive is about a notice with some details.  The message counts as a detail. -/
def fits (d : NoticeDirective) (source : String) (n : Notice) : Bool :=
  d.isStatic && (d.stem.all fun stem => stem.toList.isPrefixOf source.toList)
    && d.detail.all fun r => ("message" :: n.details.map Prod.fst).contains r.name

/-- Whether a directive is at least as specific as another one about the same notice: by how much it
says of the source, then by whether it asks for a detail, then by the name of the detail. -/
def atLeast (d e : NoticeDirective) : Bool :=
  let weight (d : NoticeDirective) : Nat := d.stem.elim 0 fun stem => stem.length + 1
  weight e < weight d || (weight e = weight d &&
    match d.detail, e.detail with
    | _, none => true
    | none, some _ => false
    | some r, some q => !decide (r.name < q.name))

end NoticeDirective

abbrev NoticeFilter := List NoticeDirective

/-- Why a text is no filter. -/
inductive FilterFault
  | malformed
  /-- A part of a directive would end inside of a character. -/
  | insideCharacter
deriving DecidableEq, Repr

namespace NoticeFilter

/-- The filter that shows nothing. -/
def silent : NoticeFilter := []

/-- The filter that gives all sources the same level. -/
def uniform (rank : Nat) : NoticeFilter := [⟨none, none, none, rank⟩]

/-- The filter that is used where none is asked for. -/
def standard : NoticeFilter := uniform NoticeLevel.info.rank

/-! ### Levels -/

/-- The names of the levels, each at the place of its rank. -/
def levelNames : List String := ["off", "error", "warn", "info", "debug", "trace"]

/-- The level up to which everything is heard. -/
def everything : Nat := NoticeLevel.trace.rank

/-- The rank that a text names, by a word or by a number. -/
def rank? (s : List Char) : Option Nat :=
  let digits := if s.head? = some '+' then s.tail else s
  if !digits.isEmpty && digits.all Char.isDigit then
    let n := Nat.ofDigitChars 10 digits 0
    if n ≤ everything then some n else none
  else levelNames.findIdx? fun name => name.toList == s.map Char.toLower

/-- The level behind an equals sign.  Without one everything is heard. -/
def levelBehind (s : List Char) : Except FilterFault Nat :=
  if s.isEmpty then .ok everything
  else
    match rank? s with
    | some rank => .ok rank
    | none => .error .malformed

/-! ### Directives

The blanks around a directive do not count when its parts are found, but the parts are taken out of
the text from its very beginning, by the number of bytes in front of them. -/

/-- A part of a text. -/
def part (s : List Char) (start stop : Nat) : Except FilterFault (List Char) :=
  match Text.cut? start stop s with
  | some part => .ok part
  | none => .error .insideCharacter

/-- The end of a text. -/
def partFrom (s : List Char) (start : Nat) : Except FilterFault (List Char) :=
  match Text.dropBytes? start s with
  | some part => .ok part
  | none => .error .insideCharacter

/-- Reads what a directive asks of a detail. -/
def detailRequest (s : List Char) : Except FilterFault DetailRequest :=
  if s.isEmpty then .error .malformed
  else
    match Text.splitAt '=' s with
    | name :: value :: _ =>
      if Text.isNumeral value || Text.isPattern value then
        .ok ⟨String.ofList name, some (String.ofList value)⟩
      else .error .malformed
    | _ => .ok ⟨String.ofList s, none⟩

/-- Reads what stands behind the square brackets of a directive; `place` is the number of bytes in
front of it. -/
def endOfDirective (s : List Char) (d : NoticeDirective) (place : Nat) :
    List Char → Except FilterFault NoticeDirective
  | [] => .ok d
  | '=' :: _ => do return { d with rank := ← levelBehind (← partFrom s (place + 1)) }
  | _ => .error .malformed

/-- Reads what stands in the square brackets of a directive about some sources: the name of an
activity, and what is asked of a detail, in braces. -/
def inBrackets (s : List Char) (stem : Option String) (place : Nat) (rest : List Char) :
    Except FilterFault NoticeDirective := do
  match Text.seek? [']', '\x7b'] place rest with
  | some (']', stop, rest) =>
    let name ← part s place stop
    endOfDirective s ⟨stem, some (String.ofList name), none, everything⟩ (stop + 1) rest
  | some (_, stop, rest) =>
    let name ← part s place stop
    let activity := if name.isEmpty then none else some (String.ofList name)
    match Text.seek? ['\x7d'] (stop + 1) rest with
    | some (_, close, ']' :: rest) =>
      let detail ← detailRequest (← part s (stop + 1) close)
      endOfDirective s ⟨stem, activity, some detail, everything⟩ (close + 2) rest
    | some (_, close, _) =>
      discard (part s (stop + 1) close)
      .error .malformed
    | none => .error .malformed
  | none => .error .malformed

/-- Reads a directive: a level by itself, or what it is about, with a level behind an equals sign. -/
def directive (s : List Char) : Except FilterFault NoticeDirective := do
  match Text.trim s with
  | [] => .error .malformed
  | '[' :: rest => inBrackets s none 1 rest
  | c :: rest =>
    if !(['-', ':', '_'].contains c || Text.isAlphanumeric c) then .error .malformed
    else
      match Text.seek? ['=', '['] c.utf8Size rest with
      | none =>
        match rank? s with
        | some rank => return ⟨none, none, none, rank⟩
        | none => return ⟨some (String.ofList s), none, none, everything⟩
      | some ('[', stop, rest) =>
        inBrackets s (some (String.ofList (← part s 0 stop))) (stop + 1) rest
      | some (_, stop, _) =>
        let stem ← part s 0 stop
        return ⟨some (String.ofList stem), none, none, ← levelBehind (← partFrom s (stop + 1))⟩

/-! ### Filters -/

/-- Reads a filter: directives between commas. -/
def parse (s : String) : Except FilterFault NoticeFilter :=
  ((Text.splitAt ',' s.toList).filter fun piece => !piece.isEmpty).mapM directive

/-- The filter that a setting asks for: the standard one if there is no setting or if it is
malformed.  There is none if a directive cannot be cut into its parts. -/
def ofSetting : Option String → Option NoticeFilter
  | none => some standard
  | some s =>
    match parse s with
    | .ok f => some f
    | .error .malformed => some standard
    | .error .insideCharacter => none

/-- Whether a filter lets a notice of a source through.  Of equally specific directives the last one
counts. -/
def shows (f : NoticeFilter) (source : String) (n : Notice) : Bool :=
  let best := (f.filter fun d => d.fits source n).foldl (fun best d =>
    match best with
    | none => some d
    | some e => if d.atLeast e then some d else some e) none
  best.any fun d => n.level.rank ≤ d.rank

end NoticeFilter

def NoticeDetail.show : NoticeDetail → String
  | number n => toString n
  | plain s => s
  | quoted s => Text.quote s

/-- A notice as a line: its level in five columns, its source, what it says, and its details. -/
def Notice.line (source : String) (n : Notice) : String :=
  let level := n.level.name
  String.ofList (List.replicate (5 - level.length) ' ') ++ level ++ " " ++ source ++ ": "
    ++ n.message
    ++ String.join (n.details.map fun d => " " ++ d.1 ++ "=" ++ d.2.show)

end VersionedRecords
