import EntityMap.Proofs.Binary64.Values

/-!
# Rounding to binary64

Every operation is exact up to one rounding, and that rounding goes to
the nearest datum, a tie to an even significand, and to infinity from half
way beyond the largest datum on (`Binary64.IsRounded`). So a product is the
rounded product of what its factors stand for (`Binary64.isRounded_mul`),
and a datum for an integer is the nearest (`Binary64.isRounded_ofInt`).

The grid of `Binary64.ofRatio` has the spacing of the data near the number.
Data with a wider spacing lie on it too, and those with a narrower one are
below every number in question (`Binary64.IsSpacing.nearest`). A significand
and an exponent on it are the two parts of one word, also where the
significand has one bit too many (`Binary64.isDecoded_ofWord`).
-/

namespace EntityMap.Binary64

variable {x y : Binary64} {num den word m : Nat} {e k : Int} {a q : ℚ} {negative : Bool}

/-! ## Nearest integers -/

theorem roundHalfEven_near (num : Nat) (hden : 0 < den) :
    |(num : ℚ) / den - roundHalfEven num den| ≤ 1 / 2 ∧
      (|(num : ℚ) / den - roundHalfEven num den| = 1 / 2 → Even (roundHalfEven num den)) := by
  have hden' : (0 : ℚ) < den := by exact_mod_cast hden
  have hnum : (num : ℚ) / den = (num / den : Nat) + ((num % den : Nat) : ℚ) / den := by
    have h : (num : ℚ) = den * (num / den : Nat) + (num % den : Nat) := by
      exact_mod_cast (Nat.div_add_mod num den).symm
    rw [h]
    field_simp
  have hnonneg : 0 ≤ ((num % den : Nat) : ℚ) / den := by positivity
  have hlt : ((num % den : Nat) : ℚ) / den < 1 := by
    rw [div_lt_one hden']
    exact_mod_cast Nat.mod_lt num hden
  have hbelow : 2 * (num % den) < den ↔ ((num % den : Nat) : ℚ) / den < 1 / 2 := by
    rw [div_lt_div_iff₀ hden' two_pos, one_mul, ← Nat.cast_lt (α := ℚ)]
    push_cast
    rw [mul_comm]
  have habove : den < 2 * (num % den) ↔ 1 / 2 < ((num % den : Nat) : ℚ) / den := by
    rw [div_lt_div_iff₀ two_pos hden', one_mul, ← Nat.cast_lt (α := ℚ)]
    push_cast
    rw [mul_comm]
  unfold roundHalfEven
  dsimp only
  rw [hnum]
  generalize ((num % den : Nat) : ℚ) / den = rest at hnonneg hlt hbelow habove ⊢
  generalize num / den = quotient
  split
  · rename_i h
    rw [hbelow] at h
    rw [add_sub_cancel_left, abs_of_nonneg hnonneg]
    exact ⟨h.le, fun hhalf => absurd hhalf h.ne⟩
  · rename_i hnot
    split
    · rename_i h
      rw [habove] at h
      rw [Nat.cast_add, Nat.cast_one, add_sub_add_left_eq_sub, abs_of_nonpos (by linarith)]
      exact ⟨by linarith, fun hhalf => absurd hhalf (by linarith)⟩
    · rename_i hnot'
      have hrest : rest = 1 / 2 :=
        le_antisymm (not_lt.mp (habove.not.mp hnot')) (not_lt.mp (hbelow.not.mp hnot))
      rcases Nat.mod_two_eq_zero_or_one quotient with hmod | hmod
      · rw [hmod, add_zero, add_sub_cancel_left, hrest]
        exact ⟨by norm_num, fun _ => Nat.even_iff.mpr hmod⟩
      · rw [hmod, Nat.cast_add, Nat.cast_one, add_sub_add_left_eq_sub, hrest]
        exact ⟨by norm_num, fun _ => Nat.even_iff.mpr (by omega)⟩

theorem one_le_of_ne (a : ℚ) (hk : k ≠ m) : 1 ≤ |a - k| + |a - m| := by
  have hone : (1 : ℚ) ≤ |(k : ℚ) - m| := by
    exact_mod_cast Int.one_le_abs (sub_ne_zero.mpr hk)
  have htriangle := abs_sub_le (k : ℚ) a m
  rw [abs_sub_comm (k : ℚ) a] at htriangle
  exact hone.trans htriangle

/-- No integer is nearer than one that is at most a half away. -/
theorem le_of_near (h : |a - m| ≤ 1 / 2) (k : Int) : |a - m| ≤ |a - k| := by
  by_cases hk : k = m
  · rw [hk, Int.cast_natCast]
  · have := one_le_of_ne a hk
    linarith

theorem eq_half_of_tie (h : |a - m| ≤ 1 / 2) (htie : |a - k| = |a - m|) (hk : k ≠ m) :
    |a - m| = 1 / 2 := by
  have := one_le_of_ne a hk
  linarith

/-! ## The spacing of the data -/

/-- The logarithms of numerator and denominator give that of the ratio up to one. -/
theorem log2_bounds (hnum : 0 < num) (hden : 0 < den) :
    (2 : ℚ) ^ ((num.log2 : Int) - den.log2 - 1) ≤ num / den ∧
      (num : ℚ) / den < 2 ^ ((num.log2 : Int) - den.log2 + 1) := by
  have hden' : (0 : ℚ) < den := by exact_mod_cast hden
  have hnum₁ : (2 : ℚ) ^ num.log2 ≤ num := by exact_mod_cast Nat.log2_self_le hnum.ne'
  have hnum₂ : (num : ℚ) < 2 ^ (num.log2 + 1) := by exact_mod_cast Nat.lt_log2_self
  have hden₁ : (2 : ℚ) ^ den.log2 ≤ den := by exact_mod_cast Nat.log2_self_le hden.ne'
  have hden₂ : (den : ℚ) < 2 ^ (den.log2 + 1) := by exact_mod_cast Nat.lt_log2_self
  constructor
  · rw [le_div_iff₀ hden']
    calc (2 : ℚ) ^ ((num.log2 : Int) - den.log2 - 1) * den
        ≤ 2 ^ ((num.log2 : Int) - den.log2 - 1) * 2 ^ (den.log2 + 1) := by gcongr
      _ = 2 ^ num.log2 := by
        rw [← zpow_natCast, ← zpow_natCast, ← zpow_add₀ two_ne_zero]
        congr 1
        push_cast
        ring
      _ ≤ num := hnum₁
  · rw [div_lt_iff₀ hden']
    calc (num : ℚ) < 2 ^ (num.log2 + 1) := hnum₂
      _ = 2 ^ ((num.log2 : Int) - den.log2 + 1) * 2 ^ den.log2 := by
        rw [← zpow_natCast, ← zpow_natCast, ← zpow_add₀ two_ne_zero]
        congr 1
        push_cast
        ring
      _ ≤ 2 ^ ((num.log2 : Int) - den.log2 + 1) * den := by gcongr

/-- A ratio is compared with a power of two as a scaled ratio with one. -/
theorem scaleRatio_le_iff (num : Nat) (hden : 0 < den) (e : Int) :
    (scaleRatio num den (-e)).2 ≤ (scaleRatio num den (-e)).1 ↔ (2 : ℚ) ^ e ≤ num / den := by
  have hpos : (0 : ℚ) < (scaleRatio num den (-e)).2 := by
    exact_mod_cast scaleRatio_pos num hden (-e)
  rw [← Nat.cast_le (α := ℚ), ← one_le_div₀ hpos, scaleRatio_eq num hden, zpow_neg,
    ← div_eq_mul_inv, one_le_div₀ (by positivity)]

theorem floorLog2_bounds (hnum : 0 < num) (hden : 0 < den) :
    (2 : ℚ) ^ floorLog2 num den ≤ num / den ∧
      (num : ℚ) / den < 2 ^ (floorLog2 num den + 1) := by
  obtain ⟨hlower, hupper⟩ := log2_bounds hnum hden
  have hguess := scaleRatio_le_iff num hden ((num.log2 : Int) - den.log2)
  unfold floorLog2
  dsimp only
  split
  · rename_i h
    exact ⟨hguess.mp h, hupper⟩
  · rename_i h
    rw [sub_add_cancel]
    exact ⟨hlower, not_le.mp (hguess.not.mp h)⟩

/-- A power of two that is the distance of neighbouring data near a number. -/
structure IsSpacing (a : ℚ) (e : Int) : Prop where
  least : -1074 ≤ e
  upper : a < 2 ^ (e + 53)
  lower : -1074 < e → (2 : ℚ) ^ (e + 52) ≤ a

theorem isSpacing_floorLog2 (hnum : 0 < num) (hden : 0 < den) :
    IsSpacing ((num : ℚ) / den) (max (floorLog2 num den - 52) (-1074)) := by
  obtain ⟨hlower, hupper⟩ := floorLog2_bounds hnum hden
  constructor
  · omega
  · exact hupper.trans_le (zpow_le_zpow_right₀ one_le_two (by omega))
  · intro he
    exact (zpow_le_zpow_right₀ one_le_two (by omega)).trans hlower

/-- An integer that is nearest to a number in the spacing of the data, a tie going to an even
one. -/
structure IsScaled (a : ℚ) (e : Int) (m : Nat) : Prop where
  near : |a / 2 ^ e - m| ≤ 1 / 2
  even : |a / 2 ^ e - m| = 1 / 2 → Even m

theorem isScaled_roundHalfEven (num : Nat) (hden : 0 < den) (e : Int) :
    IsScaled ((num : ℚ) / den) e
      (roundHalfEven (scaleRatio num den (-e)).1 (scaleRatio num den (-e)).2) := by
  have hnear := roundHalfEven_near (scaleRatio num den (-e)).1 (scaleRatio_pos num hden (-e))
  rw [scaleRatio_eq num hden, zpow_neg, ← div_eq_mul_inv] at hnear
  exact ⟨hnear.1, hnear.2⟩

namespace IsSpacing

theorem significand_le (h : IsSpacing a e) (hm : IsScaled a e m) : m ≤ 2 ^ 53 := by
  have hlt : a / 2 ^ e < 2 ^ 53 := by
    rw [div_lt_iff₀ (by positivity), ← zpow_natCast, ← zpow_add₀ two_ne_zero, add_comm]
    exact h.upper
  have hnear := (abs_le.mp hm.near).1
  by_contra hm
  have hm : (2 : ℚ) ^ 53 + 1 ≤ m := by exact_mod_cast not_le.mp hm
  linarith

theorem le_significand (h : IsSpacing a e) (he : -1074 < e) (hm : IsScaled a e m) :
    2 ^ 52 ≤ m := by
  have hle : (2 : ℚ) ^ 52 ≤ a / 2 ^ e := by
    rw [le_div_iff₀ (by positivity), ← zpow_natCast, ← zpow_add₀ two_ne_zero, add_comm]
    exact h.lower he
  have hnear := (abs_le.mp hm.near).2
  by_contra hm
  have hm : (m : ℚ) + 1 ≤ 2 ^ 52 := by exact_mod_cast not_le.mp hm
  linarith

theorem sub_mul_spacing (a r : ℚ) (e : Int) : |a - r * 2 ^ e| = 2 ^ e * |a / 2 ^ e - r| := by
  have hpos : (0 : ℚ) < 2 ^ e := by positivity
  rw [← abs_of_pos hpos, ← abs_mul, abs_of_pos hpos, mul_sub, mul_div_cancel₀ _ hpos.ne',
    mul_comm r]

/-- No datum is nearer than the nearest multiple of the spacing, and none as near unless that is
even. -/
theorem nearest (h : IsSpacing a e) (hm : IsScaled a e m) (y : Binary64) :
    |a - m * 2 ^ e| ≤ |a - (|y.toRat|)| ∧
      (|a - (|y.toRat|)| = |a - m * 2 ^ e| → |y.toRat| ≠ m * 2 ^ e → Even m) := by
  have hpos : (0 : ℚ) < 2 ^ e := by positivity
  rw [abs_toRat]
  by_cases he : e ≤ y.exponent
  · -- the datum is a multiple of the spacing
    obtain ⟨k, hk⟩ : ∃ k : Int, (y.significand : ℚ) * 2 ^ y.exponent = k * 2 ^ e := by
      refine ⟨y.significand * 2 ^ (y.exponent - e).toNat, ?_⟩
      have hsplit : (2 : ℚ) ^ y.exponent = 2 ^ (y.exponent - e).toNat * 2 ^ e := by
        rw [← zpow_natCast, ← zpow_add₀ two_ne_zero]
        congr 1
        omega
      rw [hsplit]
      push_cast
      ring
    rw [hk, sub_mul_spacing, sub_mul_spacing]
    refine ⟨mul_le_mul_of_nonneg_left (le_of_near hm.near k) hpos.le, fun htie hne => ?_⟩
    have hkm : k ≠ m := by
      rintro rfl
      exact hne (by push_cast; rfl)
    exact hm.even (eq_half_of_tie hm.near (mul_left_cancel₀ hpos.ne' htie) hkm)
  · -- the datum is below the binade of the number, whose least element is a multiple
    have hlower := h.lower (by have := y.le_exponent; omega)
    have hbelow : (y.significand : ℚ) * 2 ^ y.exponent < 2 ^ (e + 52) := by
      have hsignificand : (y.significand : ℚ) < 2 ^ (53 : Int) := by
        exact_mod_cast y.significand_lt
      calc (y.significand : ℚ) * 2 ^ y.exponent < 2 ^ (53 : Int) * 2 ^ y.exponent := by gcongr
        _ = 2 ^ (y.exponent + 53) := by rw [← zpow_add₀ two_ne_zero, add_comm]
        _ ≤ 2 ^ (e + 52) := zpow_le_zpow_right₀ one_le_two (by omega)
    have hleast : |a - m * 2 ^ e| ≤ a - 2 ^ (e + 52) := by
      have hmultiple : (2 : ℚ) ^ (e + 52) = ((2 ^ 52 : Int) : ℚ) * 2 ^ e := by
        rw [add_comm, zpow_add₀ two_ne_zero]
        norm_num
      rw [← abs_of_nonneg (sub_nonneg.mpr hlower), hmultiple, sub_mul_spacing, sub_mul_spacing]
      exact mul_le_mul_of_nonneg_left (le_of_near hm.near _) hpos.le
    have hlt : |a - m * 2 ^ e| < |a - y.significand * 2 ^ y.exponent| := by
      rw [abs_of_nonneg (by linarith : 0 ≤ a - y.significand * 2 ^ y.exponent)]
      linarith
    exact ⟨hlt.le, fun htie => absurd htie hlt.ne'⟩

end IsSpacing

/-! ## Words -/

theorem bits_ofWord (hword : word < 2 ^ 63) :
    (ofWord negative word).bits.toNat = (if negative then 2 ^ 63 else 0) + word := by
  unfold ofWord
  rw [signBit_eq, UInt64.toNat_ofNat_of_lt']
  · cases negative <;> simp
  · rw [UInt64.size]
    split <;> omega

theorem isNegative_ofWord (hword : word < 2 ^ 63) :
    (ofWord negative word).isNegative = negative := by
  rw [isNegative, bits_ofWord hword, signBit_eq]
  cases negative with
  | false => simpa using hword
  | true => simp

theorem exponentField_ofWord (hword : word < 2 ^ 63) :
    (ofWord negative word).exponentField = word / 2 ^ 52 := by
  rw [exponentField, bits_ofWord hword, hiddenBit_eq]
  split <;> omega

theorem fractionField_ofWord (hword : word < 2 ^ 63) :
    (ofWord negative word).fractionField = word % 2 ^ 52 := by
  rw [fractionField, bits_ofWord hword, hiddenBit_eq]
  split <;> omega

/-- A datum is finite and stands for a multiple of a power of two, up to its sign. -/
structure IsDecoded (x : Binary64) (m : Nat) (e : Int) : Prop where
  finite : x.isFinite
  value : |x.toRat| = m * 2 ^ e
  even : Even m → Even x.significand

/-- A significand above an exponent is a word, and one that is rounded up to a power of two is
carried into the exponent. -/
theorem isDecoded_ofWord (he : -1074 ≤ e) (hm : m ≤ 2 ^ 53) (hnormal : -1074 < e → 2 ^ 52 ≤ m)
    (hword : (e + 1074).toNat * hiddenBit + m < infinityWord) :
    (ofWord negative ((e + 1074).toNat * hiddenBit + m)).IsDecoded m e := by
  obtain ⟨s, hs⟩ := Int.eq_ofNat_of_zero_le (show 0 ≤ e + 1074 by omega)
  obtain rfl : e = s - 1074 := by omega
  rw [infinityWord, hiddenBit_eq] at hword
  rw [hiddenBit_eq]
  rw [sub_add_cancel, Int.toNat_natCast] at hword ⊢
  have hlt : s * 2 ^ 52 + m < 2 ^ 63 := by omega
  generalize hx : ofWord negative (s * 2 ^ 52 + m) = x
  have hfield : x.exponentField = (s * 2 ^ 52 + m) / 2 ^ 52 := hx ▸ exponentField_ofWord hlt
  have hfraction : x.fractionField = (s * 2 ^ 52 + m) % 2 ^ 52 := hx ▸ fractionField_ofWord hlt
  have hfinite : x.isFinite := by
    rw [isFinite, hfield, decide_eq_true_eq]
    omega
  have hparts : x.significand = m ∧ x.exponent = s - 1074 ∨
      m = 2 ^ 53 ∧ x.significand = 2 ^ 52 ∧ x.exponent = s - 1073 := by
    rw [significand, exponent, hfield, hfraction, hiddenBit_eq]
    split <;> omega
  rcases hparts with ⟨hsignificand, hexponent⟩ | ⟨rfl, hsignificand, hexponent⟩
  · refine ⟨hfinite, ?_, fun heven => hsignificand ▸ heven⟩
    rw [abs_toRat, hsignificand, hexponent]
  · refine ⟨hfinite, ?_, fun _ => hsignificand ▸ by decide⟩
    rw [abs_toRat, hsignificand, hexponent, show (s : Int) - 1073 = s - 1074 + 1 by omega,
      zpow_add_one₀ two_ne_zero]
    push_cast
    ring

/-! ## Correct rounding -/

/-- Half way between the largest datum and the next power of two, from where on numbers are
rounded to infinity. -/
def limit : ℚ :=
  (2 ^ 53 - 1 / 2) * 2 ^ (971 : Int)

/-- A datum is the one to which a number is rounded. -/
structure IsRounded (x : Binary64) (q : ℚ) : Prop where
  overflow : limit ≤ |q| → x = infinity (q < 0)
  finite : |q| < limit → x.isFinite
  nearest : |q| < limit → ∀ y : Binary64, y.isFinite → |q - x.toRat| ≤ |q - y.toRat|
  even : |q| < limit → ∀ y : Binary64, y.isFinite → |q - y.toRat| = |q - x.toRat| →
    y.toRat ≠ x.toRat → Even x.significand

theorem limit_pos : 0 < limit := by
  unfold limit
  positivity

theorem limit_le_iff : limit ≤ a ↔ 2 ^ 53 - 1 / 2 ≤ a / 2 ^ (971 : Int) := by
  rw [limit, le_div_iff₀ (by positivity)]

/-- The word of a number reaches that of infinity from the limit on. -/
theorem IsSpacing.infinityWord_le_iff (h : IsSpacing a e) (hm : IsScaled a e m) :
    infinityWord ≤ (e + 1074).toNat * hiddenBit + m ↔ limit ≤ a := by
  have hle := h.significand_le hm
  have hleast := h.least
  have hnear := abs_le.mp hm.near
  rw [infinityWord, hiddenBit_eq, limit_le_iff]
  rcases lt_trichotomy e 971 with he | rfl | he
  · -- below the last binade
    have hupper : a / 2 ^ (971 : Int) < 2 ^ 52 := by
      rw [div_lt_iff₀ (by positivity), ← zpow_natCast, ← zpow_add₀ two_ne_zero]
      exact h.upper.trans_le (zpow_le_zpow_right₀ one_le_two (by omega))
    refine iff_of_false (by omega) fun hle => ?_
    linarith
  · have hword : 2047 * 2 ^ 52 ≤ ((971 : Int) + 1074).toNat * 2 ^ 52 + m ↔ m = 2 ^ 53 := by omega
    have heven := hm.even
    rw [hword]
    generalize a / 2 ^ (971 : Int) = scaled at hnear heven ⊢
    constructor
    · rintro rfl
      push_cast at hnear
      linarith
    · intro hlimit
      by_contra hne
      have hlast : (m : ℚ) ≤ 2 ^ 53 - 1 := by
        rw [le_sub_iff_add_le]
        exact_mod_cast lt_of_le_of_ne hle hne
      have hhalf : scaled - m = 1 / 2 := by linarith
      obtain rfl : m = 2 ^ 53 - 1 := by
        have : (m : ℚ) = (2 ^ 53 - 1 : Nat) := by
          push_cast
          linarith
        exact_mod_cast this
      exact absurd (heven (by rw [hhalf]; norm_num)) (by decide)
  · -- above it
    have hnormal := h.le_significand (by omega) hm
    have hlower : 2 ^ 53 ≤ a / 2 ^ (971 : Int) := by
      rw [le_div_iff₀ (by positivity), ← zpow_natCast, ← zpow_add₀ two_ne_zero]
      exact (zpow_le_zpow_right₀ one_le_two (by omega)).trans (h.lower (by omega))
    refine iff_of_true (by omega) ?_
    linarith

/-- Data of the sign of a number are compared with it without their signs. -/
theorem isRounded_of_abs (hq : q ≠ 0) (hsign : x.sign * |q| = q) (hlt : |q| < limit)
    (hdecoded : x.IsDecoded m e) (hspacing : IsSpacing |q| e) (hm : IsScaled |q| e m) :
    x.IsRounded q := by
  have hself : |q - x.toRat| = |(|q|) - m * 2 ^ e| := by
    rw [← hdecoded.value]
    have h : q - x.toRat = x.sign * (|q| - |x.toRat|) := by
      rw [mul_sub, hsign, sign_mul_abs]
    rw [h, abs_mul]
    rcases x.sign_cases with hone | hone <;> rw [hone] <;> norm_num
  have hother : ∀ y : Binary64, |(|q|) - (|y.toRat|)| ≤ |q - y.toRat| := fun y =>
    abs_abs_sub_abs_le_abs_sub q y.toRat
  refine ⟨fun h => absurd hlt (not_lt.mpr h), fun _ => hdecoded.finite, fun _ y _ => ?_,
    fun _ y _ htie hne => hdecoded.even ?_⟩
  · rw [hself]
    exact (hspacing.nearest hm y).1.trans (hother y)
  · obtain ⟨hle, heven⟩ := hspacing.nearest hm y
    have hle' : |(|q|) - (|y.toRat|)| ≤ |(|q|) - m * 2 ^ e| := by
      rw [← hself, ← htie]
      exact hother y
    refine heven (le_antisymm hle' hle) fun habs => ?_
    -- a datum of the other sign is as near only if one of the two is zero
    rw [← hdecoded.value] at habs
    rcases abs_eq_abs.mp habs with hsame | hopposite
    · exact hne hsame
    · rw [hopposite, sub_neg_eq_add] at htie
      rcases abs_eq_abs.mp htie with hzero | hzero
      · exact hne (by rw [hopposite]; linarith)
      · exact hq (by linarith)

theorem isDecoded_zero (negative : Bool) : (zero negative).IsDecoded 0 (-1074) := by
  have hzero : zero negative = ofWord negative ((-1074 + 1074 : Int).toNat * hiddenBit + 0) := by
    simp [zero]
  rw [hzero]
  exact isDecoded_ofWord (by decide) (by decide) (by decide) (by decide)

theorem isRounded_zero (negative : Bool) : (zero negative).IsRounded 0 := by
  have hdecoded := isDecoded_zero negative
  have hzero : (zero negative).toRat = 0 := by
    rw [← abs_eq_zero, hdecoded.value, Nat.cast_zero, zero_mul]
  refine ⟨fun h => absurd limit_pos (not_lt.mpr (abs_zero (α := ℚ) ▸ h)),
    fun _ => hdecoded.finite, fun _ y _ => ?_, fun _ y _ _ _ => hdecoded.even (by decide)⟩
  rw [hzero, sub_zero, abs_zero]
  exact abs_nonneg _

/-- The datum for a ratio is the one to which it is rounded. -/
theorem isRounded_ofRatio (hden : 0 < den)
    (hq : q = if negative then -((num : ℚ) / den) else num / den) :
    (ofRatio negative num den).IsRounded q := by
  unfold ofRatio
  split
  · rename_i hnum
    obtain rfl : q = 0 := by simpa [hnum] using hq
    exact isRounded_zero negative
  · rename_i hnum
    have hpos : (0 : ℚ) < num / den := by
      have hnum : 0 < num := Nat.pos_of_ne_zero hnum
      positivity
    have habs : |q| = num / den := by
      rw [hq]
      split <;> simp [abs_of_pos hpos]
    have hne : q ≠ 0 := abs_pos.mp (habs ▸ hpos)
    have hnegative : negative = decide (q < 0) := by
      rw [hq]
      cases negative with
      | false => simpa using hpos.le
      | true => simpa using hpos
    have hspacing := isSpacing_floorLog2 (Nat.pos_of_ne_zero hnum) hden
    dsimp only
    generalize max (floorLog2 num den - 52) (-1074) = e at hspacing ⊢
    have hscaled := isScaled_roundHalfEven num hden e
    generalize roundHalfEven (scaleRatio num den (-e)).1 (scaleRatio num den (-e)).2 = m
      at hscaled ⊢
    rw [← habs] at hspacing hscaled
    have hlimit := hspacing.infinityWord_le_iff hscaled
    rcases lt_or_ge (|q|) limit with hlt | hle
    · have hword := not_le.mp (hlimit.not.mpr (not_le.mpr hlt))
      rw [min_eq_left hword.le]
      have hlt63 : (e + 1074).toNat * hiddenBit + m < 2 ^ 63 := hword.trans (by decide)
      refine isRounded_of_abs hne ?_ hlt (isDecoded_ofWord hspacing.least
        (hspacing.significand_le hscaled) (hspacing.le_significand · hscaled) hword)
        hspacing hscaled
      rw [sign, isNegative_ofWord hlt63, habs, hq]
      split <;> simp
    · rw [min_eq_right (hlimit.mpr hle), hnegative]
      have hnot := not_lt.mpr hle
      exact ⟨fun _ => rfl, fun h => absurd h hnot, fun h => absurd h hnot, fun h => absurd h hnot⟩

/-! ## Operations -/

theorem isRounded_ofInt (i : Int) : (ofInt i).IsRounded i := by
  refine isRounded_ofRatio Nat.one_pos ?_
  rw [Nat.cast_one, div_one, Nat.cast_natAbs, Int.cast_abs]
  by_cases hi : i < 0
  · have hi' : (i : ℚ) < 0 := by exact_mod_cast hi
    simp [hi, abs_of_neg hi']
  · have hi' : (0 : ℚ) ≤ i := by exact_mod_cast not_lt.mp hi
    simp [hi, abs_of_nonneg hi']

theorem isFinite_ofInt {i : Int} (h : |i| ≤ 2 ^ 63) : (ofInt i).isFinite := by
  refine (isRounded_ofInt i).finite ?_
  have habs : |(i : ℚ)| ≤ 2 ^ 63 := by exact_mod_cast h
  have hlimit : (2 ^ 53 - 1 / 2) * 2 ^ (11 : Int) ≤ limit :=
    mul_le_mul_of_nonneg_left (zpow_le_zpow_right₀ one_le_two (by decide)) (by norm_num)
  exact (habs.trans_lt (by norm_num)).trans_le hlimit

theorem isNaN_eq_false (hx : x.isFinite) : x.isNaN = false := by
  rw [isFinite, decide_eq_true_eq] at hx
  simp [isNaN, hx]

theorem isInfinite_eq_false (hx : x.isFinite) : x.isInfinite = false := by
  rw [isFinite, decide_eq_true_eq] at hx
  simp [isInfinite, hx]

/-- The product of two finite data is the rounded product of what they stand for. -/
theorem isRounded_mul (hx : x.isFinite) (hy : y.isFinite) :
    (x.mul y).IsRounded (x.toRat * y.toRat) := by
  unfold mul
  simp only [isNaN_eq_false hx, isNaN_eq_false hy, isInfinite_eq_false hx, isInfinite_eq_false hy,
    Bool.or_false, Bool.false_eq_true, if_false]
  refine isRounded_ofRatio (Nat.mul_pos x.magnitude_pos y.magnitude_pos) ?_
  have hproduct : ((x.magnitude.1 * y.magnitude.1 : Nat) : ℚ) /
      (x.magnitude.2 * y.magnitude.2 : Nat) = |x.toRat| * |y.toRat| := by
    rw [Nat.cast_mul, Nat.cast_mul, mul_div_mul_comm, magnitude_eq, magnitude_eq]
  rw [hproduct, ← x.sign_mul_abs, ← y.sign_mul_abs, sign, sign]
  cases x.isNegative <;> cases y.isNegative <;> simp

end EntityMap.Binary64
