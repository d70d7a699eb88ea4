/-!
# Timestamps

An instant of UTC, its calendar date, and the RFC 3339 text of both. A
written instant may carry an offset and a fraction of any length, of
which nine digits count; the second `60` names a leap second, kept as
nanoseconds beyond the fifty-ninth second.

`read?` and `text` are the two directions. The texts written are
`2024-05-01T10:00:00+00:00` and `2024-05-01T10:00:00Z`, with a fraction
of three, six or nine digits when there is one.
-/

namespace EntityMap

/-! ## The calendar -/

/-- A date of the proleptic Gregorian calendar. -/
structure CivilDate where
  year : Int
  month : Nat
  day : Nat
  deriving DecidableEq, Repr

namespace CivilDate

def isLeapYear (year : Int) : Bool :=
  year % 4 = 0 && (year % 100 ≠ 0 || year % 400 = 0)

def monthLength (year : Int) (month : Nat) : Nat :=
  if month = 2 then if isLeapYear year then 29 else 28
  else if month = 4 ∨ month = 6 ∨ month = 9 ∨ month = 11 then 30
  else 31

def isValid (date : CivilDate) : Bool :=
  1 ≤ date.month && date.month ≤ 12 && 1 ≤ date.day &&
    date.day ≤ monthLength date.year date.month

/-- Days from 1 March of year 0 to 1 January 1970. -/
def epochShift : Int := 719468

/-- Days since 1 January 1970. Years are counted from March, so that the leap
day is the last of its year; 400 years have 146097 days. -/
def toDays (date : CivilDate) : Int :=
  let year := if date.month ≤ 2 then date.year - 1 else date.year
  let era := year / 400
  let yearOfEra := year % 400
  let dayOfYear := (153 * ((date.month + 9) % 12) + 2) / 5 + date.day - 1
  era * 146097 + yearOfEra * 365 + yearOfEra / 4 - yearOfEra / 100 + dayOfYear - epochShift

/-- The date `days` after 1 January 1970. -/
def ofDays (days : Int) : CivilDate :=
  let shifted := days + epochShift
  let era := shifted / 146097
  let dayOfEra := (shifted % 146097).toNat
  let yearOfEra :=
    (dayOfEra - dayOfEra / 1460 + dayOfEra / 36524 - dayOfEra / 146096) / 365
  let dayOfYear := dayOfEra - (365 * yearOfEra + yearOfEra / 4 - yearOfEra / 100)
  let monthFromMarch := (5 * dayOfYear + 2) / 153
  let day := dayOfYear - (153 * monthFromMarch + 2) / 5 + 1
  let month := if monthFromMarch < 10 then monthFromMarch + 3 else monthFromMarch - 9
  let year := era * 400 + yearOfEra
  ⟨if month ≤ 2 then year + 1 else year, month, day⟩

end CivilDate

/-- An instant: whole seconds since 1 January 1970 UTC, and nanoseconds,
which reach a second only within a leap second. -/
structure Timestamp where
  seconds : Int
  nanos : Nat
  deriving DecidableEq, Repr, Inhabited

namespace Timestamp

/-- A second in nanoseconds. -/
def nanosPerSecond : Nat := 1000000000

/-! ## Writing -/

/-- `n` in decimal with at least `width` digits. -/
def padded (width n : Nat) : String :=
  let digits := toString n
  String.ofList (List.replicate (width - digits.length) '0') ++ digits

/-- Four digits for the years 0 to 9999, a sign and at least four digits for
the others. -/
def yearText (year : Int) : String :=
  if 0 ≤ year ∧ year ≤ 9999 then padded 4 year.toNat
  else (if year < 0 then "-" else "+") ++ padded 4 year.natAbs

/-- The shortest of the fractions with no, three, six or nine digits that
loses nothing. -/
def fractionText (nanos : Nat) : String :=
  if nanos = 0 then ""
  else if nanos % 1000000 = 0 then "." ++ padded 3 (nanos / 1000000)
  else if nanos % 1000 = 0 then "." ++ padded 6 (nanos / 1000)
  else "." ++ padded 9 nanos

/-- The RFC 3339 text, with `zone` for the offset of UTC. -/
def textWith (zone : String) (t : Timestamp) : String :=
  let date := CivilDate.ofDays (t.seconds / 86400)
  let time := (t.seconds % 86400).toNat
  let leap := nanosPerSecond ≤ t.nanos
  let second := if leap then time % 60 + 1 else time % 60
  let nanos := if leap then t.nanos - nanosPerSecond else t.nanos
  yearText date.year ++ "-" ++ padded 2 date.month ++ "-" ++ padded 2 date.day ++ "T" ++
    padded 2 (time / 3600) ++ ":" ++ padded 2 (time / 60 % 60) ++ ":" ++ padded 2 second ++
    fractionText nanos ++ zone

/-- The text in messages and answers. -/
def text (t : Timestamp) : String :=
  t.textWith "+00:00"

/-- The text in documents. -/
def documentText (t : Timestamp) : String :=
  t.textWith "Z"

/-! ## Reading -/

/-- Exactly `n` decimal digits. -/
def fixedDigits? (n : Nat) (cs : List Char) : Option (Nat × List Char) :=
  let digits := cs.take n
  if digits.length = n && digits.all Char.isDigit then
    some (digits.foldl (fun value c => 10 * value + (c.toNat - '0'.toNat)) 0, cs.drop n)
  else none

/-- One given character. -/
def expect? (c : Char) : List Char → Option (List Char)
  | d :: rest => if c = d then some rest else none
  | [] => none

/-- The nanoseconds of a fraction: nine digits count, further ones are passed
over. -/
def fraction? (cs : List Char) : Option (Nat × List Char) :=
  match cs with
  | '.' :: rest =>
    let digits := rest.takeWhile Char.isDigit
    if digits.isEmpty then none
    else
      let counted := (digits ++ List.replicate 9 '0').take 9
      (fixedDigits? 9 counted).map fun (nanos, _) => (nanos, rest.drop digits.length)
  | _ => some (0, cs)

/-- The sign of an offset; the minus sign U+2212 is admitted. -/
def offsetSign? : List Char → Option (Int × List Char)
  | '+' :: rest => some (1, rest)
  | '-' :: rest => some (-1, rest)
  | '−' :: rest => some (-1, rest)
  | _ => none

/-- The offset from UTC in seconds, less than a day. -/
def offset? : List Char → Option (Int × List Char)
  | 'Z' :: rest => some (0, rest)
  | 'z' :: rest => some (0, rest)
  | cs => do
    let (sign, cs) ← offsetSign? cs
    let (hours, cs) ← fixedDigits? 2 cs
    let cs ← expect? ':' cs
    let (minutes, cs) ← fixedDigits? 2 cs
    if hours ≤ 23 && minutes ≤ 59 then some (sign * ((hours * 60 + minutes) * 60 : Nat), cs)
    else none

/-- The mark between date and time. -/
def separator? : List Char → Option (List Char)
  | 'T' :: rest => some rest
  | 't' :: rest => some rest
  | ' ' :: rest => some rest
  | _ => none

/-- Reads an RFC 3339 text. -/
def read? (text : String) : Option Timestamp := do
  let cs := text.toList
  let (year, cs) ← fixedDigits? 4 cs
  let cs ← expect? '-' cs
  let (month, cs) ← fixedDigits? 2 cs
  let cs ← expect? '-' cs
  let (day, cs) ← fixedDigits? 2 cs
  let cs ← separator? cs
  let (hour, cs) ← fixedDigits? 2 cs
  let cs ← expect? ':' cs
  let (minute, cs) ← fixedDigits? 2 cs
  let cs ← expect? ':' cs
  let (second, cs) ← fixedDigits? 2 cs
  let (nanos, cs) ← fraction? cs
  let (offset, cs) ← offset? cs
  let date : CivilDate := ⟨year, month, day⟩
  if cs.isEmpty && date.isValid && hour < 24 && minute < 60 && second ≤ 60 then
    let leap := second = 60
    let time := hour * 3600 + minute * 60 + (if leap then 59 else second)
    some ⟨date.toDays * 86400 + time - offset, if leap then nanos + nanosPerSecond else nanos⟩
  else none

end Timestamp

end EntityMap
