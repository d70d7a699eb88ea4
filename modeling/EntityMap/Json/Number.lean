import EntityMap.Json

/-!
# JSON numbers

A number with a fraction or an exponent, or too large for 64 bits, is
read by its leading digits, as many as make a 64-bit significand, which
is then multiplied or divided by a power of ten; each of these steps
rounds to nearest, so that the result may differ in the last bit from
the datum nearest to the text. A number beyond the largest datum is well
written and has no value.
-/

namespace EntityMap.Json

/-- One more than the largest significand. -/
def significandLimit : Nat := UInt64.size

/-- The largest power of ten that a float holds. -/
def maxPowerOfTen : Nat := 308

/-- Extends a significand by the digits in front of `cs` while it stays below
the limit; also answers how many digits it took and what follows. -/
def extendSignificand (significand taken : Nat) : List Char → Nat × Nat × List Char
  | c :: cs =>
    let next := 10 * significand + (c.toNat - '0'.toNat)
    if c.isDigit && next < significandLimit then extendSignificand next (taken + 1) cs
    else (significand, taken, c :: cs)
  | [] => (significand, taken, [])

/-- The datum nearest to a power of ten. -/
def powerOfTen (n : Nat) : Binary64 :=
  Binary64.ofRatio false (Nat.pow 10 n) 1

/-- Divides by powers of ten, at most `10 ^ 308` in one step; after `steps`
full steps nothing is left of a 64-bit significand. -/
def divideByTen : Nat → Binary64 → Nat → Binary64
  | 0, x, n => x.div (powerOfTen (min n maxPowerOfTen))
  | steps + 1, x, n =>
    if n ≤ maxPowerOfTen then x.div (powerOfTen n)
    else divideByTen steps (x.div (powerOfTen maxPowerOfTen)) (n - maxPowerOfTen)

/-- `significand · 10 ^ exponent` with a rounding per step, unless that lies
beyond the largest datum. -/
def scaleByTen? (significand : Nat) (exponent : Int) : Option Binary64 :=
  let x := Binary64.ofInt significand
  if x.isZero then some x
  else if exponent < 0 then some (divideByTen 3 x (-exponent).toNat)
  else if (maxPowerOfTen : Int) < exponent then none
  else
    let scaled := x.mul (powerOfTen exponent.toNat)
    if scaled.isInfinite then none else some scaled

/-- Applies the sign of a number. -/
def signedFloat (negative : Bool) (x : Binary64) : Json :=
  float (if negative then x.neg else x)

/-- The value of a number with its power of ten. -/
def scaled? (negative : Bool) (significand : Nat) (exponent : Int) : Option Json :=
  (scaleByTen? significand exponent).map (signedFloat negative)

/-- Reads the exponent behind its letter and finishes the number. -/
def exponent? (negative : Bool) (significand : Nat) (exponent : Int) (cs : List Char) :
    Option (Option Json × List Char) :=
  let (down, cs) := match cs with
    | '+' :: rest => (false, rest)
    | '-' :: rest => (true, rest)
    | rest => (false, rest)
  let (digits, rest) := Binary64.spanDigits cs
  let shift : Int := Binary64.digitsValue digits
  if digits.isEmpty then none
  else
    some (scaled? negative significand (if down then exponent - shift else exponent + shift), rest)

/-- Finishes a number behind its last digit. -/
def finish? (negative : Bool) (significand : Nat) (exponent : Int) :
    List Char → Option (Option Json × List Char)
  | 'e' :: rest => exponent? negative significand exponent rest
  | 'E' :: rest => exponent? negative significand exponent rest
  | rest => some (scaled? negative significand exponent, rest)

/-- Reads the digits behind the point; those beyond the significand are passed
over. -/
def fraction? (negative : Bool) (significand : Nat) (exponent : Int) (cs : List Char) :
    Option (Option Json × List Char) :=
  match cs with
  | c :: _ =>
    if c.isDigit then
      let (significand, taken, rest) := extendSignificand significand 0 cs
      finish? negative significand (exponent - taken) (rest.dropWhile Char.isDigit)
    else none
  | [] => none

/-- The number with all its digits in the significand and nothing behind them. -/
def whole (negative : Bool) (significand : Nat) : Json :=
  if !negative then int significand
  else if significand = 0 || (Word.signed? (-(significand : Int))).isNone then
    signedFloat true (Binary64.ofInt significand)
  else int (-(significand : Int))

/-- Reads a number behind its sign. A zero may not be followed by a digit. -/
def unsigned? (negative : Bool) (cs : List Char) : Option (Option Json × List Char) :=
  let (digits, _) := Binary64.spanDigits cs
  if digits.isEmpty || (digits.head? = some '0' && 1 < digits.length) then none
  else
    let (significand, taken, _) := extendSignificand 0 0 cs
    let dropped := digits.length - taken
    match cs.dropWhile Char.isDigit with
    | '.' :: rest => fraction? negative significand dropped rest
    | rest =>
      let exponential := rest.head? = some 'e' || rest.head? = some 'E'
      if dropped = 0 && !exponential then some (whole negative significand, rest)
      else finish? negative significand dropped rest

/-- Reads the number in front of a text, and its value if it has one. -/
def number? : List Char → Option (Option Json × List Char)
  | '-' :: rest => unsigned? true rest
  | cs => unsigned? false cs

end EntityMap.Json
