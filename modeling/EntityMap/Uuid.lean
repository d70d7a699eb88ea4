/-!
# UUIDs

A universally unique identifier is a number of 128 bits. It is written
as 32 lower-case hexadecimal digits in groups of 8, 4, 4, 4 and 12, and
read from that form, from the digits alone, from the form in braces and
from the form behind `urn:uuid:`, all in either letter case.
-/

namespace EntityMap

/-- A 128-bit identifier. -/
structure Uuid where
  value : BitVec 128
  deriving DecidableEq, Repr, Inhabited

namespace Uuid

/-- The identifier whose bits are all zero. -/
def nil : Uuid := ⟨0⟩

/-! ## Writing -/

/-- The lower-case hexadecimal digit of a number below 16. -/
def hexDigit (n : Nat) : Char :=
  if n < 10 then Char.ofNat ('0'.toNat + n) else Char.ofNat ('a'.toNat + (n - 10))

/-- The last `count` hexadecimal digits of `n`. -/
def hexDigits : Nat → Nat → List Char
  | 0, _ => []
  | count + 1, n => hexDigits count (n / 16) ++ [hexDigit (n % 16)]

/-- The hyphenated form. -/
def text (u : Uuid) : String :=
  let digits := hexDigits 32 u.value.toNat
  let group (start count : Nat) : List Char := (digits.drop start).take count
  String.ofList (group 0 8 ++ '-' :: group 8 4 ++ '-' :: group 12 4 ++ '-' :: group 16 4 ++
    '-' :: group 20 12)

/-! ## Reading -/

/-- The value of a hexadecimal digit of either case. -/
def hexValue? (c : Char) : Option Nat :=
  if '0' ≤ c ∧ c ≤ '9' then some (c.toNat - '0'.toNat)
  else if 'a' ≤ c ∧ c ≤ 'f' then some (c.toNat - 'a'.toNat + 10)
  else if 'A' ≤ c ∧ c ≤ 'F' then some (c.toNat - 'A'.toNat + 10)
  else none

/-- The number that hexadecimal digits denote. -/
def hexNumber? (digits : List Char) : Option Nat :=
  digits.foldlM (fun n c => (hexValue? c).map (16 * n + ·)) 0

/-- Reads 32 digits. -/
def readDigits? (digits : List Char) : Option Uuid :=
  if digits.length = 32 then (hexNumber? digits).map fun n => ⟨BitVec.ofNat 128 n⟩ else none

/-- Reads the hyphenated form. -/
def readGroups? (cs : List Char) : Option Uuid :=
  let group (start count : Nat) : List Char := (cs.drop start).take count
  if cs.length = 36 && group 8 1 = ['-'] && group 13 1 = ['-'] && group 18 1 = ['-'] &&
      group 23 1 = ['-'] then
    readDigits? (group 0 8 ++ group 9 4 ++ group 14 4 ++ group 19 4 ++ group 24 12)
  else none

/-- The word in front of an identifier that is written as a name. -/
def nameMark : List Char := "urn:uuid:".toList

/-- The marks around the hyphenated form that are taken off before it is read. -/
def strip (cs : List Char) : List Char :=
  match cs with
  | '\x7b' :: rest => if rest.getLast? = some '\x7d' then rest.dropLast else cs
  | _ =>
    if (cs.take nameMark.length).map Char.toLower = nameMark then cs.drop nameMark.length else cs

/-- Reads any of the four forms. -/
def read? (text : String) : Option Uuid :=
  let cs := text.toList
  if cs.length = 32 then readDigits? cs else readGroups? (strip cs)

end Uuid

end EntityMap
