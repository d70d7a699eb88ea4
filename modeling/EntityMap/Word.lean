/-!
# 64-bit integers

Which integers 64 bits hold, with a sign and without, and which of them
is nearest to an integer that they do not hold.
-/

namespace EntityMap.Word

/-- An integer as 64 bits with sign, if they hold it. -/
def signed? (i : Int) : Option Int64 :=
  if Int64.minValue.toInt ≤ i && i ≤ Int64.maxValue.toInt then some (Int64.ofInt i) else none

/-- An integer without its sign, if 64 bits hold it so. -/
def unsigned? (i : Int) : Option Nat :=
  if 0 ≤ i && i < UInt64.size then some i.toNat else none

/-- The integer of 64 bits with sign that is nearest: beyond the range, its end. -/
def nearest (i : Int) : Int64 :=
  if i < Int64.minValue.toInt then Int64.minValue
  else if Int64.maxValue.toInt < i then Int64.maxValue
  else Int64.ofInt i

end EntityMap.Word
