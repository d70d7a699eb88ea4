import EntityMap.Binary64
import Mathlib.Algebra.Order.Field.Power
import Mathlib.Data.Rat.Cast.Order
import Mathlib.Tactic.FieldSimp
import Mathlib.Tactic.Linarith
import Mathlib.Tactic.Positivity
import Mathlib.Tactic.Ring

/-!
# The numbers that binary64 data stand for

A finite datum stands for a rational number (`Binary64.toRat`), the ratio
with which all arithmetic is done (`Binary64.magnitude_eq`). An integer is
found in it exactly where it is one (`Binary64.integer?_eq_some_iff`), and
it is rounded to the nearest integer, a half going away from zero
(`Binary64.round?_eq_some_iff`).
-/

namespace EntityMap.Binary64

variable {x : Binary64} {num den n : Nat} {e : Int} {a q : ℚ} {i k l : Int}

/-! ## Fields -/

theorem hiddenBit_eq : hiddenBit = 2 ^ 52 := by decide

theorem signBit_eq : signBit = 2 ^ 63 := by decide

theorem fractionField_lt (x : Binary64) : x.fractionField < 2 ^ 52 := by
  rw [fractionField, hiddenBit_eq]
  exact Nat.mod_lt _ (by decide)

theorem significand_lt (x : Binary64) : x.significand < 2 ^ 53 := by
  have hfraction := fractionField_lt x
  rw [significand, hiddenBit_eq]
  split <;> omega

theorem le_exponent (x : Binary64) : -1074 ≤ x.exponent := by
  rw [exponent]
  split <;> omega

/-! ## Ratios -/

theorem scaleRatio_pos (num : Nat) (hden : 0 < den) (e : Int) : 0 < (scaleRatio num den e).2 := by
  unfold scaleRatio
  split
  · exact hden
  · rw [Nat.shiftLeft_eq]
    positivity

theorem scaleRatio_eq (num : Nat) (hden : 0 < den) (e : Int) :
    ((scaleRatio num den e).1 : ℚ) / (scaleRatio num den e).2 = num / den * 2 ^ e := by
  have hden' : (den : ℚ) ≠ 0 := by exact_mod_cast hden.ne'
  unfold scaleRatio
  split
  · rename_i he
    obtain ⟨s, rfl⟩ := Int.eq_ofNat_of_zero_le he
    simp only [Int.toNat_natCast, Nat.shiftLeft_eq, Nat.cast_mul, Nat.cast_pow, Nat.cast_ofNat,
      zpow_natCast]
    ring
  · rename_i he
    obtain ⟨s, hs⟩ := Int.eq_ofNat_of_zero_le (show 0 ≤ -e by omega)
    obtain rfl : e = -(s : Int) := by omega
    simp only [neg_neg, Int.toNat_natCast, Nat.shiftLeft_eq, Nat.cast_mul, Nat.cast_pow,
      Nat.cast_ofNat, zpow_neg, zpow_natCast]
    field_simp

/-! ## Values -/

/-- The sign of a datum. -/
def sign (x : Binary64) : ℚ :=
  if x.isNegative then -1 else 1

/-- The number that a finite datum stands for. -/
def toRat (x : Binary64) : ℚ :=
  x.sign * (x.significand * 2 ^ x.exponent)

theorem sign_cases (x : Binary64) : x.sign = 1 ∨ x.sign = -1 := by
  unfold sign
  split
  · exact .inr rfl
  · exact .inl rfl

theorem abs_toRat (x : Binary64) : |x.toRat| = x.significand * 2 ^ x.exponent := by
  have hpos : (0 : ℚ) ≤ x.significand * 2 ^ x.exponent := by positivity
  rcases x.sign_cases with hsign | hsign <;> simp [toRat, hsign, abs_of_nonneg hpos]

theorem sign_mul_abs (x : Binary64) : x.sign * |x.toRat| = x.toRat := by
  rw [abs_toRat, toRat]

theorem magnitude_pos (x : Binary64) : 0 < x.magnitude.2 :=
  scaleRatio_pos _ Nat.one_pos _

theorem magnitude_eq (x : Binary64) : (x.magnitude.1 : ℚ) / x.magnitude.2 = |x.toRat| := by
  rw [magnitude, scaleRatio_eq _ Nat.one_pos, abs_toRat]
  simp

theorem signed_eq (x : Binary64) (n : Nat) : ((x.signed n : Int) : ℚ) = x.sign * n := by
  unfold signed sign
  split <;> simp

/-! ## Integers -/

theorem div_eq_iff_mod_eq (hden : 0 < den) :
    (num : ℚ) / den = n ↔ num % den = 0 ∧ num / den = n := by
  have hden' : (den : ℚ) ≠ 0 := by exact_mod_cast hden.ne'
  rw [div_eq_iff hden']
  constructor
  · intro h
    have h : num = n * den := by exact_mod_cast h
    exact ⟨by rw [h, Nat.mul_mod_left], by rw [h, Nat.mul_div_cancel _ hden]⟩
  · rintro ⟨hmod, rfl⟩
    exact_mod_cast (Nat.div_mul_cancel (Nat.dvd_of_mod_eq_zero hmod)).symm

/-- An integer is found in a datum that stands for it. -/
theorem integer?_eq_some_iff : x.integer? = some i ↔ x.isFinite ∧ x.toRat = i := by
  have hden := x.magnitude_pos
  have hvalue := x.magnitude_eq
  have hsign := x.sign_mul_abs
  unfold integer?
  generalize x.magnitude = ratio at hden hvalue ⊢
  obtain ⟨num, den⟩ := ratio
  dsimp only at hden hvalue ⊢
  rw [Option.ite_none_right_eq_some, Bool.and_eq_true, decide_eq_true_eq, and_assoc]
  refine and_congr_right fun _ => ⟨?_, fun hi => ?_⟩
  · rintro ⟨hmod, hi⟩
    obtain rfl := Option.some.inj hi
    rw [signed_eq, ← hsign, ← hvalue, (div_eq_iff_mod_eq hden).mpr ⟨hmod, rfl⟩]
  · have habs : (num : ℚ) / den = (i.natAbs : ℚ) := by
      rw [hvalue, hi, Nat.cast_natAbs, Int.cast_abs]
    obtain ⟨hmod, hdiv⟩ := (div_eq_iff_mod_eq hden).mp habs
    refine ⟨hmod, congrArg some ?_⟩
    have hsigned : ((x.signed (num / den) : Int) : ℚ) = i := by
      rw [signed_eq, hdiv, ← habs, hvalue, hsign, hi]
    exact_mod_cast hsigned

/-! ## Roundings -/

/-- An integer nearest to a number, a half going away from zero. -/
structure IsRounding (q : ℚ) (k : Int) : Prop where
  near : |q - k| ≤ 1 / 2
  away : |q - k| = 1 / 2 → |q| < |(k : ℚ)|

theorem IsRounding.neg (h : IsRounding q k) : IsRounding (-q) (-k) := by
  have heq : |-q - ((-k : Int) : ℚ)| = |q - k| := by
    rw [Int.cast_neg, sub_neg_eq_add, neg_add_eq_sub, abs_sub_comm]
  constructor
  · rw [heq]
    exact h.near
  · rw [heq, Int.cast_neg, abs_neg, abs_neg]
    exact h.away

theorem IsRounding.unique (h : IsRounding q k) (h' : IsRounding q l) : k = l := by
  wlog hlt : k < l generalizing k l
  · by_contra hne
    exact hne (this h' h (by omega)).symm
  -- the two are apart by one, and the number lies half way between them
  exfalso
  have hnear := abs_le.mp h.near
  have hnear' := abs_le.mp h'.near
  have hnext : (k : ℚ) + 1 ≤ l := by exact_mod_cast hlt
  have hq : q = k + 1 / 2 := by linarith
  have hl : (l : ℚ) = k + 1 := by linarith
  have hk := h.away (by rw [hq]; norm_num)
  have hl' := h'.away (by rw [hq, hl]; norm_num)
  rw [hq] at hk hl'
  rw [hl] at hl'
  rcases le_or_gt 0 k with hsign | hsign
  · have : (0 : ℚ) ≤ k := by exact_mod_cast hsign
    rw [abs_of_nonneg (by linarith), abs_of_nonneg this] at hk
    linarith
  · have : (k : ℚ) + 1 ≤ 0 := by exact_mod_cast hsign
    rw [abs_of_nonpos (by linarith), abs_of_nonpos this] at hl'
    linarith

theorem isRounding_roundHalfUp (num : Nat) (hden : 0 < den) :
    IsRounding ((num : ℚ) / den) (roundHalfUp num den : Nat) := by
  have hden' : (0 : ℚ) < den := by exact_mod_cast hden
  have hle : ((roundHalfUp num den : Nat) : ℚ) ≤ num / den + 1 / 2 := by
    have h : (roundHalfUp num den) * (2 * den) ≤ 2 * num + den := Nat.div_mul_le_self _ _
    have h : ((roundHalfUp num den : Nat) : ℚ) * (2 * den) ≤ 2 * num + den := by exact_mod_cast h
    rw [div_add_div _ _ hden'.ne' two_ne_zero, le_div_iff₀ (by positivity)]
    linarith
  have hlt : (num : ℚ) / den + 1 / 2 < (roundHalfUp num den : Nat) + 1 := by
    have h : 2 * num + den < (roundHalfUp num den + 1) * (2 * den) :=
      Nat.lt_mul_of_div_lt (Nat.lt_succ_self _) (by omega)
    have h : (2 * num + den : ℚ) < ((roundHalfUp num den : Nat) + 1) * (2 * den) := by
      exact_mod_cast h
    rw [div_add_div _ _ hden'.ne' two_ne_zero, div_lt_iff₀ (by positivity)]
    linarith
  have hnonneg : (0 : ℚ) ≤ num / den := by positivity
  constructor
  · rw [Int.cast_natCast]
    exact abs_le.mpr ⟨by linarith, by linarith⟩
  · intro hhalf
    rw [Int.cast_natCast] at hhalf ⊢
    rw [abs_of_nonneg hnonneg, Nat.abs_cast]
    rcases (abs_eq (by norm_num)).mp hhalf with hhalf | hhalf <;> linarith

/-- A finite datum is rounded to an integer that is nearest. -/
theorem round?_eq_some_iff : x.round? = some k ↔ x.isFinite ∧ IsRounding x.toRat k := by
  have hden := x.magnitude_pos
  have hvalue := x.magnitude_eq
  have hsign := x.sign_mul_abs
  unfold round?
  generalize x.magnitude = ratio at hden hvalue ⊢
  obtain ⟨num, den⟩ := ratio
  dsimp only at hden hvalue ⊢
  have hrounding : IsRounding x.toRat (x.signed (roundHalfUp num den)) := by
    have hup := isRounding_roundHalfUp num hden
    rw [hvalue] at hup
    unfold sign at hsign
    unfold signed
    split at hsign
    · rename_i hnegative
      rw [if_pos hnegative, ← hsign, neg_one_mul]
      exact hup.neg
    · rename_i hnegative
      rw [if_neg hnegative, ← hsign, one_mul]
      exact hup
  rw [Option.ite_none_right_eq_some]
  refine and_congr_right fun _ => ⟨fun hk => Option.some.inj hk ▸ hrounding, fun hk => ?_⟩
  exact congrArg some (hrounding.unique hk)

/-- The integer of 64 bits that is nearest to the rounding of a finite datum. -/
theorem exists_roundToInt64 (hx : x.isFinite) :
    ∃ r : Int, IsRounding x.toRat r ∧ x.roundToInt64 = Word.nearest r := by
  have hround : x.round? = some (x.signed (roundHalfUp x.magnitude.1 x.magnitude.2)) := if_pos hx
  refine ⟨_, (round?_eq_some_iff.mp hround).2, ?_⟩
  rw [roundToInt64, hround]

theorem roundToInt64_infinity (negative : Bool) : (infinity negative).roundToInt64 =
    if negative then Int64.minValue else Int64.maxValue := by
  cases negative <;> decide

end EntityMap.Binary64
