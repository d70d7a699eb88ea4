import EntityMap.Binary64

/-!
# Decimal forms of binary64 numbers

A positive finite datum stands for every real number that rounds to it:
an interval around its exact value, with its ends exactly when the
significand is even. `shortest` picks the decimal of fewest digits in
that interval, and of those the one nearest to the exact value. It looks
at the two neighbours of the exact value on the grids of multiples of
`10 ^ p`, from coarse to fine: the first grid with a hit has the fewest
digits.

`plain` and `compact` are the two ways of laying the digits out, and
`ofDecimalText?` reads a decimal text with a single rounding.
-/

namespace EntityMap

/-- The number `coefficient · 10 ^ exponent`. -/
structure Decimal where
  coefficient : Nat
  exponent : Int
  deriving DecidableEq, Repr

/-- Which of two decimals is taken when both are equally near. -/
inductive DecimalTie where
  | larger
  | even
  deriving DecidableEq, Repr

namespace Binary64

/-- The bounds of the interval that rounds to a positive finite datum, and
its value, all three multiplied by four in units of `2 ^ exponent`. Below
a power of two the data are twice as dense. -/
def quarters (x : Binary64) : Nat × Nat × Nat :=
  let value := 4 * x.significand
  let below := if x.fractionField = 0 ∧ 1 < x.exponentField then 1 else 2
  (value - below, value, value + 2)

/-- Whether the ends of the interval themselves round to the datum. -/
def ownsBounds (x : Binary64) : Bool :=
  x.significand % 2 = 0

/-- Whether `coefficient · 10 ^ p` rounds to the positive datum `x`. -/
def admits (x : Binary64) (coefficient : Nat) (p : Int) : Bool :=
  let (lower, _, upper) := x.quarters
  -- `coefficient · 10 ^ p · 2 ^ (2 - exponent)`, compared with the bounds.
  let (num, den) := scaleRatio coefficient 1 (2 - x.exponent)
  let (num, den) := if 0 ≤ p then (num * Nat.pow 10 p.toNat, den)
    else (num, den * Nat.pow 10 (-p).toNat)
  if x.ownsBounds then lower * den ≤ num && num ≤ upper * den
  else lower * den < num && num < upper * den

/-- The exact value over `10 ^ p`, as numerator and denominator. -/
def overPower (x : Binary64) (p : Int) : Nat × Nat :=
  let (num, den) := x.magnitude
  if 0 ≤ p then (num, den * Nat.pow 10 p.toNat) else (num * Nat.pow 10 (-p).toNat, den)

/-- The neighbour of the exact value on the grid `10 ^ p` that rounds to
the datum; of two, the nearer. -/
def gridHit? (tie : DecimalTie) (x : Binary64) (p : Int) : Option Nat :=
  let (num, den) := x.overPower p
  let floor := num / den
  let rest := num % den
  match x.admits floor p, x.admits (floor + 1) p with
  | false, false => none
  | true, false => some floor
  | false, true => some (floor + 1)
  | true, true =>
    if 2 * rest < den then some floor
    else if den < 2 * rest then some (floor + 1)
    else match tie with
      | .larger => some (floor + 1)
      | .even => some (floor + floor % 2)

/-- Searches the grids `10 ^ p`, `10 ^ (p - 1)`, … . -/
def searchGrids (tie : DecimalTie) (x : Binary64) : Nat → Int → Decimal
  | 0, p => ⟨(x.overPower p).1 / (x.overPower p).2, p⟩
  | n + 1, p =>
    match gridHit? tie x p with
    | some coefficient => ⟨coefficient, p⟩
    | none => searchGrids tie x n (p - 1)

/-- The shortest decimal that rounds to a positive finite datum. The search
starts above the leading digit, whose place is found from the binary
exponent within one, and ends below the seventeenth digit, where every
datum has a hit. -/
def shortest (tie : DecimalTie) (x : Binary64) : Decimal :=
  let (num, den) := x.magnitude
  let place := floorLog2 num den * 30103 / 100000
  searchGrids tie x 22 (place + 2)

/-! ## Layouts -/

/-- `n` zeros. -/
def zeros (n : Nat) : String :=
  String.ofList (List.replicate n '0')

/-- The first `n` characters, a point, and the rest. -/
def insertPoint (digits : String) (n : Nat) : String :=
  String.ofList (digits.toList.take n) ++ "." ++ String.ofList (digits.toList.drop n)

/-- Digits without an exponent: `1200`, `1.5`, `0.005`. -/
def plainDigits (d : Decimal) : String :=
  let digits := toString d.coefficient
  let point : Int := digits.length + d.exponent
  if 0 ≤ d.exponent then digits ++ zeros d.exponent.toNat
  else if 0 < point then insertPoint digits point.toNat
  else "0." ++ zeros (-point).toNat ++ digits

/-- Digits with a fraction between `10 ^ -5` and `10 ^ 16`, and with a signed
exponent beyond: `1200.0`, `0.005`, `1e+300`, `1.25e-7`. -/
def compactDigits (d : Decimal) : String :=
  let digits := toString d.coefficient
  let point : Int := digits.length + d.exponent
  if 0 ≤ d.exponent ∧ point ≤ 16 then digits ++ zeros d.exponent.toNat ++ ".0"
  else if 0 < point ∧ point ≤ 16 then insertPoint digits point.toNat
  else if -5 < point ∧ point ≤ 0 then "0." ++ zeros (-point).toNat ++ digits
  else
    let mantissa := if digits.length = 1 then digits else insertPoint digits 1
    mantissa ++ (if 0 < point then "e+" else "e") ++ toString (point - 1)

/-- The sign in front of a negative datum, `-0` included. -/
def withSign (x : Binary64) (digits : String) : String :=
  if x.isNegative then "-" ++ digits else digits

/-- The text of a number in messages and statements: shortest digits, never
an exponent, an exact tie going up. -/
def plain (x : Binary64) : String :=
  if x.isNaN then "NaN"
  else if x.isInfinite then x.withSign "inf"
  else if x.isZero then x.withSign "0"
  else x.withSign (plainDigits (x.shortest .larger))

/-- The text of a finite number in documents: shortest digits, an exact tie
going to the even digit, always with a fraction or an exponent. -/
def compact (x : Binary64) : String :=
  if x.isZero then x.withSign "0.0"
  else x.withSign (compactDigits (x.shortest .even))

/-! ## Reading -/

/-- The datum nearest to `± coefficient · 10 ^ exponent`. Exponents beyond
every finite datum are decided without building the power. -/
def ofDecimal (negative : Bool) (d : Decimal) : Binary64 :=
  let place : Int := (toString d.coefficient).length + d.exponent
  if d.coefficient = 0 ∨ place < -330 then zero negative
  else if 320 < place then infinity negative
  else if 0 ≤ d.exponent then ofRatio negative (d.coefficient * Nat.pow 10 d.exponent.toNat) 1
  else ofRatio negative d.coefficient (Nat.pow 10 (-d.exponent).toNat)

/-- The number that decimal digits denote; no digits denote zero. -/
def digitsValue (digits : List Char) : Nat :=
  digits.foldl (fun n c => 10 * n + (c.toNat - '0'.toNat)) 0

/-- The digits at the front of a text, and what follows them. -/
def spanDigits (cs : List Char) : List Char × List Char :=
  (cs.takeWhile Char.isDigit, cs.dropWhile Char.isDigit)

/-- Reads the exponent that may end a decimal text. -/
def exponentPart? : List Char → Option Int
  | [] => some 0
  | c :: cs =>
    if c = 'e' ∨ c = 'E' then
      let (negative, cs) := match cs with
        | '-' :: rest => (true, rest)
        | '+' :: rest => (false, rest)
        | rest => (false, rest)
      match spanDigits cs with
      | ([], _) => none
      | (digits, []) => some (if negative then -(digitsValue digits : Int) else digitsValue digits)
      | _ => none
    else none

/-- Reads an optionally signed decimal text, with digits on at least one
side of its point. -/
def ofDecimalText? (text : String) : Option Binary64 := do
  let (negative, cs) := match text.toList with
    | '-' :: rest => (true, rest)
    | '+' :: rest => (false, rest)
    | rest => (false, rest)
  let (whole, cs) := spanDigits cs
  let (fraction, cs) := match cs with
    | '.' :: rest => spanDigits rest
    | rest => ([], rest)
  if whole.isEmpty && fraction.isEmpty then none
  else
    let exponent ← exponentPart? cs
    some (ofDecimal negative ⟨digitsValue (whole ++ fraction), exponent - fraction.length⟩)

end Binary64

end EntityMap
