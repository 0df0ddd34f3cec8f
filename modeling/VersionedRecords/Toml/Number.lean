import VersionedRecords.Toml.Lexeme

/-!
Numbers, dates and times in TOML.  A whole number has 64 bits and a sign; a number with a fraction
must not be too large for a binary floating-point number of 64 bits; a date must exist.
-/

namespace VersionedRecords.Toml

/-- Reads digits; single underscores may stand between them. -/
def digits? (isDigit : Char → Bool) : List Char → Option (List Char × List Char)
  | [] => none
  | c :: rest =>
    if isDigit c then
      match rest with
      | '_' :: rest' => do
        let (ds, rest) ← digits? isDigit rest'
        return (c :: ds, rest)
      | d :: rest' =>
        if isDigit d then do
          let (ds, rest) ← digits? isDigit (d :: rest')
          return (c :: ds, rest)
        else some ([c], rest)
      | [] => some ([c], [])
    else none

/-- Reads the digits of a decimal whole number: a zero, or digits that do not start with one. -/
def decimalDigits? : List Char → Option (List Char × List Char)
  | '0' :: rest => some (['0'], rest)
  | cs => digits? Char.isDigit cs

/-- The number that some digits stand for. -/
def digitsValue (base : Nat) (ds : List Char) : Nat :=
  ds.foldl (fun n c => n * base + (Json.hexValue? c).getD 0) 0

/-- Reads the digits of a number that has its base in front. -/
def basedInteger? (base : Nat) (cs : List Char) : Option (Json × List Char) := do
  let isDigit := fun c => match Json.hexValue? c with
    | some d => decide (d < base)
    | none => false
  let (ds, rest) ← digits? isDigit cs
  let n := digitsValue base ds
  if n < 0x8000000000000000 then return (.integer n, rest) else none

/-- Whether `m` times ten to the power `x` is nearer to two to the power 1024 than to any number of
64 bits below it, or halfway. -/
def isTooLarge (m : Nat) (x : Int) : Bool :=
  let size : Int := (toString m).length + x
  if m = 0 ∨ size ≤ 308 then false
  else if 310 ≤ size then true
  else decide
    ((Nat.pow 2 1024 - Nat.pow 2 970) * Nat.pow 10 (-x).toNat ≤ m * Nat.pow 10 x.toNat)

/-- Reads the fraction of a number, if there is one. -/
def fraction? : List Char → Option (List Char × List Char)
  | '.' :: rest => digits? Char.isDigit rest
  | cs => some ([], cs)

/-- Reads a sign, if there is one, and tells whether it is a minus. -/
def sign : List Char → Bool × List Char
  | '-' :: rest => (true, rest)
  | '+' :: rest => (false, rest)
  | cs => (false, cs)

/-- Reads the exponent of a number, if there is one. -/
def exponent? : List Char → Option (Int × List Char)
  | [] => some (0, [])
  | c :: rest =>
    if c = 'e' ∨ c = 'E' then do
      let (negative, rest) := sign rest
      let (ds, rest) ← digits? Char.isDigit rest
      let n : Int := digitsValue 10 ds
      return (if negative then -n else n, rest)
    else some (0, c :: rest)

/-- Whether a number with a fraction or an exponent goes on here. -/
def goesOn : List Char → Bool
  | c :: _ => c == '.' || c == 'e' || c == 'E'
  | [] => false

/-- Reads a decimal number behind its sign. -/
def decimal? (negative : Bool) (cs : List Char) : Option (Json × List Char) := do
  let (whole, rest) ← decimalDigits? cs
  if goesOn rest then
    let (fraction, rest) ← fraction? rest
    let (x, rest) ← exponent? rest
    if !negative && isTooLarge (digitsValue 10 (whole ++ fraction)) (x - fraction.length) then none
    else return (.inexact (whole ++ '.' :: fraction), rest)
  else
    let n := digitsValue 10 whole
    if negative then
      if n ≤ 0x8000000000000000 then return (.integer (-n), rest) else none
    else if n < 0x8000000000000000 then return (.integer n, rest)
    else none

/-- Reads a number with its sign. -/
def number? (cs : List Char) : Option (Json × List Char) :=
  match cs with
  | '0' :: 'x' :: rest => basedInteger? 16 rest
  | '0' :: 'o' :: rest => basedInteger? 8 rest
  | '0' :: 'b' :: rest => basedInteger? 2 rest
  | _ =>
    match sign cs with
    | (_, 'i' :: 'n' :: 'f' :: rest) => some (.inexact "inf".toList, rest)
    | (_, 'n' :: 'a' :: 'n' :: rest) => some (.inexact "nan".toList, rest)
    | (negative, rest) => decimal? negative rest

/-- Reads exactly `count` digits as a number within bounds. -/
def field? (count low high : Nat) (cs : List Char) : Option (Nat × List Char) :=
  let ds := (cs.take count).takeWhile Char.isDigit
  let n := digitsValue 10 ds
  if ds.length = count ∧ low ≤ n ∧ n ≤ high then some (n, cs.drop count) else none

def char? (c : Char) : List Char → Option (List Char)
  | d :: rest => if d = c then some rest else none
  | [] => none

/-- How many days a month has. -/
def daysOf (year month : Nat) : Nat :=
  if month = 2 then
    if year % 4 = 0 ∧ (year % 100 ≠ 0 ∨ year % 400 = 0) then 29 else 28
  else if month ∈ [4, 6, 9, 11] then 30
  else 31

/-- Reads a date. -/
def date? (cs : List Char) : Option (List Char) := do
  let (year, rest) ← field? 4 0 9999 cs
  let (month, rest) ← field? 2 1 12 (← char? '-' rest)
  let (_, rest) ← field? 2 1 (daysOf year month) (← char? '-' rest)
  return rest

/-- Reads the fraction of a second, if there is one. -/
def secondFraction? : List Char → Option (List Char)
  | '.' :: rest =>
    let ds := rest.takeWhile Char.isDigit
    if ds.isEmpty then some ('.' :: rest) else some (rest.drop ds.length)
  | cs => some cs

/-- Reads a time of day. -/
def time? (cs : List Char) : Option (List Char) := do
  let (_, rest) ← field? 2 0 23 cs
  let (_, rest) ← field? 2 0 59 (← char? ':' rest)
  let (_, rest) ← field? 2 0 60 (← char? ':' rest)
  secondFraction? rest

/-- Reads the distance of a time from universal time, if there is one. -/
def offset? : List Char → Option (List Char)
  | [] => some []
  | c :: rest =>
    if c = 'Z' ∨ c = 'z' then some rest
    else if c = '+' ∨ c = '-' then do
      match field? 2 0 23 rest with
      | none => none
      | some (_, rest) => do
        let (_, rest) ← field? 2 0 59 (← char? ':' rest)
        return rest
    else some (c :: rest)

/-- Whether two digits and a colon follow. -/
def startsTime (cs : List Char) : Bool := ((field? 2 0 23 cs) >>= fun r => char? ':' r.2).isSome

/-- Whether four digits and a hyphen follow. -/
def startsDate (cs : List Char) : Bool := ((field? 4 0 9999 cs) >>= fun r => char? '-' r.2).isSome

/-- Reads a date, with a time and its offset if one follows. -/
def dateTime? (cs : List Char) : Option (List Char) := do
  let rest ← date? cs
  match rest with
  | c :: rest' =>
    if (c = 'T' ∨ c = 't' ∨ c = ' ') ∧ startsTime rest' then time? rest' >>= offset? else some rest
  | [] => some []

/-- Reads a number, a date or a time. -/
def scalar? (cs : List Char) : Option (Json × List Char) :=
  if startsDate cs then (dateTime? cs).map (.inexact [], ·)
  else if startsTime cs then (time? cs).map (.inexact [], ·)
  else number? cs

end VersionedRecords.Toml
