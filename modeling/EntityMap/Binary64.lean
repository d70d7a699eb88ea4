import EntityMap.Word

/-!
# Binary64 numbers

A floating-point number is held as its 64 bits, and every operation is
exact arithmetic on `Nat` followed by one rounding: a finite datum is
decoded to a ratio (`magnitude`), the operation is carried out on
ratios, and `ofRatio` takes the result to the nearest datum, a tie going
to the even significand. Nothing here depends on the processor's
floating-point unit, so all of it can be reasoned about.

Two data are equal when their bits are, so `-0` differs from `0` and a
not-a-number equals itself. `ofRatio` never produces a not-a-number;
`mul` and `div` produce the one called `nan`.
-/

namespace EntityMap

/-- An IEEE 754 binary64 datum, by its bit pattern. -/
structure Binary64 where
  bits : UInt64
  deriving DecidableEq, Repr, Inhabited, Hashable

namespace Binary64

/-! ## Fields -/

/-- The weight of the bit above the fraction, which is not stored. -/
def hiddenBit : Nat := 1 <<< 52

/-- The weight of the sign bit. -/
def signBit : Nat := 1 <<< 63

/-- The sign bit; set for `-0` and for some not-a-numbers too. -/
def isNegative (x : Binary64) : Bool :=
  signBit ≤ x.bits.toNat

/-- The eleven bits of the biased exponent. -/
def exponentField (x : Binary64) : Nat :=
  x.bits.toNat / hiddenBit % 2048

/-- The 52 explicit bits of the significand. -/
def fractionField (x : Binary64) : Nat :=
  x.bits.toNat % hiddenBit

def isNaN (x : Binary64) : Bool :=
  x.exponentField = 2047 && x.fractionField ≠ 0

def isInfinite (x : Binary64) : Bool :=
  x.exponentField = 2047 && x.fractionField = 0

def isFinite (x : Binary64) : Bool :=
  x.exponentField ≠ 2047

def isZero (x : Binary64) : Bool :=
  x.exponentField = 0 && x.fractionField = 0

/-- The integer significand of a finite datum. -/
def significand (x : Binary64) : Nat :=
  if x.exponentField = 0 then x.fractionField else hiddenBit + x.fractionField

/-- The power of two that scales `significand`. -/
def exponent (x : Binary64) : Int :=
  if x.exponentField = 0 then -1074 else (x.exponentField : Int) - 1075

/-! ## Exact ratios -/

/-- `num / den · 2 ^ e` as a ratio. -/
def scaleRatio (num den : Nat) (e : Int) : Nat × Nat :=
  if 0 ≤ e then (num <<< e.toNat, den) else (num, den <<< (-e).toNat)

/-- The absolute value of a finite datum, as numerator and denominator. -/
def magnitude (x : Binary64) : Nat × Nat :=
  scaleRatio x.significand 1 x.exponent

/-- The integer nearest to `num / den`, a half going to the even one. -/
def roundHalfEven (num den : Nat) : Nat :=
  let quotient := num / den
  let rest := num % den
  if 2 * rest < den then quotient
  else if den < 2 * rest then quotient + 1
  else quotient + quotient % 2

/-- The integer nearest to `num / den`, a half going to the larger one. -/
def roundHalfUp (num den : Nat) : Nat :=
  (2 * num + den) / (2 * den)

/-- The largest `e` with `2 ^ e ≤ num / den`, for positive `num` and `den`. -/
def floorLog2 (num den : Nat) : Int :=
  let guess : Int := (num.log2 : Int) - (den.log2 : Int)
  let (scaledNum, scaledDen) := scaleRatio num den (-guess)
  if scaledDen ≤ scaledNum then guess else guess - 1

/-! ## Building data -/

/-- The word of infinity without its sign. -/
def infinityWord : Nat := 2047 * hiddenBit

/-- The datum with the given sign bit and remaining 63 bits. -/
def ofWord (negative : Bool) (word : Nat) : Binary64 :=
  ⟨UInt64.ofNat (if negative then signBit + word else word)⟩

def zero (negative : Bool) : Binary64 := ofWord negative 0

def infinity (negative : Bool) : Binary64 := ofWord negative infinityWord

/-- The quiet not-a-number that arithmetic yields. -/
def nan : Binary64 := ofWord false (infinityWord + hiddenBit / 2)

/-- The datum nearest to `± num / den`, a tie going to the even
significand, and infinity beyond the largest one. The spacing of the
grid is two to the power of `⌊log₂⌋ - 52`, but never below the spacing of
the subnormal data; a significand that rounds up to `2 ^ 53` carries into
the exponent by itself, since the two fields are adjacent in the word. -/
def ofRatio (negative : Bool) (num den : Nat) : Binary64 :=
  if num = 0 then zero negative
  else
    let e := max (floorLog2 num den - 52) (-1074)
    let (scaledNum, scaledDen) := scaleRatio num den (-e)
    let word := (e + 1074).toNat * hiddenBit + roundHalfEven scaledNum scaledDen
    ofWord negative (min word infinityWord)

/-- The datum nearest to an integer. -/
def ofInt (i : Int) : Binary64 :=
  ofRatio (i < 0) i.natAbs 1

/-! ## Arithmetic -/

/-- The same magnitude with the other sign. -/
def neg (x : Binary64) : Binary64 :=
  ⟨x.bits ^^^ (0x8000000000000000 : UInt64)⟩

def mul (x y : Binary64) : Binary64 :=
  let negative := x.isNegative != y.isNegative
  if x.isNaN || y.isNaN then nan
  else if x.isInfinite || y.isInfinite then
    if x.isZero || y.isZero then nan else infinity negative
  else
    let (num₁, den₁) := x.magnitude
    let (num₂, den₂) := y.magnitude
    ofRatio negative (num₁ * num₂) (den₁ * den₂)

def div (x y : Binary64) : Binary64 :=
  let negative := x.isNegative != y.isNegative
  if x.isNaN || y.isNaN then nan
  else if x.isInfinite then
    if y.isInfinite then nan else infinity negative
  else if y.isInfinite then zero negative
  else if y.isZero then
    if x.isZero then nan else infinity negative
  else
    let (num₁, den₁) := x.magnitude
    let (num₂, den₂) := y.magnitude
    ofRatio negative (num₁ * den₂) (den₁ * num₂)

/-! ## Integers -/

/-- Applies the sign of `x` to a magnitude. -/
def signed (x : Binary64) (n : Nat) : Int :=
  if x.isNegative then -(n : Int) else n

/-- The value of a finite datum that is an integer. -/
def integer? (x : Binary64) : Option Int :=
  let (num, den) := x.magnitude
  if x.isFinite && num % den = 0 then some (x.signed (num / den)) else none

/-- The integer nearest to a finite datum, a half going away from zero. -/
def round? (x : Binary64) : Option Int :=
  let (num, den) := x.magnitude
  if x.isFinite then some (x.signed (roundHalfUp num den)) else none

/-- The 64-bit integer that `x` rounds to, a half going away from zero.
Beyond the range, and for an infinity, the nearer end is taken, and zero
for a not-a-number. -/
def roundToInt64 (x : Binary64) : Int64 :=
  match x.round? with
  | some i => Word.nearest i
  | none => if x.isNaN then 0 else Word.nearest (x.signed signBit)

end Binary64

end EntityMap
