import EntityMap.Catalog.Adapter
import EntityMap.Proofs.Binary64.Rounding

/-!
# Numbers stored as integers

An integer or a finite float is a rational number (`Value.number?`), and a
column of integers takes it in two ways. Without an adapter it is coerced,
which refuses a fraction and nothing else. With the scale adapter it is
multiplied with a factor, an integer exactly and a float with two roundings
(`Adapter.ScaledFloat`); of these only the exact product is refused where 64
bits do not hold it.

Where a number is not refused it is stored as the nearest integer of 64
bits. So it is stored without a change if and only if it fits, and one that
does not fit is changed without an error
(`Value.storedAsInteger_of_number`).
-/

namespace EntityMap

/-! ## Ranges -/

namespace Word

variable {i : Int} {k : Int64}

/-- An integer is one of so many bits with sign. -/
def Fits (bits : Nat) (i : Int) : Prop :=
  -2 ^ (bits - 1) ≤ i ∧ i < 2 ^ (bits - 1)

theorem fits_toInt (k : Int64) : Fits 64 k.toInt :=
  ⟨Int64.le_toInt k, Int64.toInt_lt k⟩

/-- No integer of 64 bits is nearer. -/
def IsNearest (i : Int) (k : Int64) : Prop :=
  ∀ j : Int64, |i - k.toInt| ≤ |i - j.toInt|

theorem toInt_nearest (i : Int) : (nearest i).toInt = max (-2 ^ 63) (min i (2 ^ 63 - 1)) := by
  unfold nearest
  rw [Int64.toInt_minValue, Int64.toInt_maxValue]
  split
  · rw [Int64.toInt_minValue]
    omega
  · split
    · rw [Int64.toInt_maxValue]
      omega
    · rw [Int64.toInt_ofInt_of_le (by omega) (by omega)]
      omega

theorem isNearest_nearest (i : Int) : IsNearest i (nearest i) := by
  intro j
  obtain ⟨hmin, hmax⟩ := fits_toInt j
  rw [toInt_nearest, Int.abs_eq_natAbs, Int.abs_eq_natAbs]
  omega

/-- Within the range the nearest integer is the integer itself. -/
theorem toInt_nearest_eq_iff : (nearest i).toInt = i ↔ Fits 64 i := by
  rw [toInt_nearest, Fits]
  omega

theorem Fits.mono {bits bits' : Nat} (h : Fits bits i) (hle : bits ≤ bits') : Fits bits' i := by
  have hpow : (2 : Int) ^ (bits - 1) ≤ 2 ^ (bits' - 1) :=
    pow_le_pow_right₀ one_le_two (by omega)
  obtain ⟨hmin, hmax⟩ := h
  exact ⟨by omega, by omega⟩

/-- 64 bits hold an integer that is one of 64 bits. -/
theorem signed?_eq_some_iff : signed? i = some k ↔ k.toInt = i := by
  unfold signed?
  rw [Int64.toInt_minValue, Int64.toInt_maxValue, Option.ite_none_right_eq_some, Bool.and_eq_true,
    decide_eq_true_eq, decide_eq_true_eq]
  constructor
  · rintro ⟨hi, hk⟩
    obtain rfl := Option.some.inj hk
    exact Int64.toInt_ofInt_of_le hi.1 (by omega)
  · rintro rfl
    obtain ⟨hmin, hmax⟩ := fits_toInt k
    exact ⟨by omega, by rw [Int64.ofInt_toInt]⟩

end Word

/-! ## Numbers -/

/-- The number that an integer or a finite float is. -/
def Value.number? : Value → Option ℚ
  | .int i => some i.toInt
  | .float x => if x.isFinite then some x.toRat else none
  | _ => none

/-- The size of an integer type. -/
def DataType.bits? : DataType → Option Nat
  | .int32 => some 32
  | .int64 => some 64
  | _ => none

theorem DataType.bits?_le {type : DataType} {bits : Nat} (h : type.bits? = some bits) :
    bits ≤ 64 := by
  cases type with
  | int32 | int64 =>
      obtain rfl := Option.some.inj h
      decide
  | _ => cases h

namespace Value

variable {v : Value} {q : ℚ} {type : DataType} {bits : Nat}

/-- What an integer column stores for a number: nothing where it has a fraction, and else the
nearest integer of 64 bits. -/
theorem coerce?_number (hv : v.number? = some q) (hbits : type.bits? = some bits) :
    (v.coerce? type = none ∧ ∀ i : Int, q ≠ i) ∨
      ∃ i : Int, q = i ∧ v.coerce? type = some (.int (Word.nearest i)) := by
  have htype : type = .int32 ∨ type = .int64 := by
    cases type <;> simp_all [DataType.bits?]
  cases v with
  | int i =>
      obtain rfl := Option.some.inj hv
      refine .inr ⟨i.toInt, rfl, ?_⟩
      have hnearest : Word.nearest i.toInt = i :=
        Int64.toInt_inj.mp (Word.toInt_nearest_eq_iff.mpr (Word.fits_toInt i))
      rw [hnearest]
      rcases htype with rfl | rfl <;> rfl
  | float x =>
      obtain ⟨hfinite, hq⟩ := Option.ite_none_right_eq_some.mp hv
      obtain rfl := Option.some.inj hq
      have hcoerce : (float x).coerce? type = x.integer?.map fun i => .int (Word.nearest i) := by
        rcases htype with rfl | rfl <;> rfl
      rw [hcoerce]
      cases hinteger : x.integer? with
      | none =>
          refine .inl ⟨rfl, fun i hi => ?_⟩
          cases hinteger.symm.trans (Binary64.integer?_eq_some_iff.mpr ⟨hfinite, hi⟩)
      | some i => exact .inr ⟨i, (Binary64.integer?_eq_some_iff.mp hinteger).2, rfl⟩
  | _ => cases hv

end Value

/-! ## Scaled floats -/

namespace Adapter

open Binary64

variable {x : Binary64} {factor : Int64}

/-- What is stored for a float with the value `q` that is scaled, where `f` is the datum of the
factor and `p` the product with it. -/
structure ScaledFloat (q : ℚ) (factor : Int64) (f p : Binary64) (k : Int64) : Prop where
  finite : f.isFinite
  rounded : f.IsRounded factor.toInt
  product : p.IsRounded (q * f.toRat)
  /-- Stored is the integer of 64 bits that is nearest to the rounded product, -/
  within : p.isFinite → ∃ r : Int, IsRounding p.toRat r ∧ Word.IsNearest r k
  /-- or the end of the range towards which the product is infinite. -/
  beyond : p.isFinite = false → k = if q * f.toRat < 0 then Int64.minValue else Int64.maxValue
  /-- So it is the rounded product if and only if 64 bits hold that. -/
  unchanged : p.isFinite ∧ IsRounding p.toRat k.toInt ↔
    p.isFinite ∧ ∃ r : Int, IsRounding p.toRat r ∧ Word.Fits 64 r

theorem scaledFloat_of_isFinite (hx : x.isFinite) (factor : Int64) :
    ScaledFloat x.toRat factor (ofInt factor.toInt) (x.mul (ofInt factor.toInt))
      (x.mul (ofInt factor.toInt)).roundToInt64 := by
  have hfactor : (ofInt factor.toInt).isFinite := by
    obtain ⟨hmin, hmax⟩ := Word.fits_toInt factor
    exact isFinite_ofInt (abs_le.mpr ⟨hmin, hmax.le⟩)
  have hproduct := isRounded_mul hx hfactor
  refine ⟨hfactor, isRounded_ofInt _, hproduct, fun hfinite => ?_, fun hinfinite => ?_,
    and_congr_right fun hfinite => ?_⟩
  · obtain ⟨r, hr, hstored⟩ := exists_roundToInt64 hfinite
    exact ⟨r, hr, hstored ▸ Word.isNearest_nearest r⟩
  · have hlimit : limit ≤ |x.toRat * (ofInt factor.toInt).toRat| := by
      by_contra hlt
      rw [hproduct.finite (not_le.mp hlt)] at hinfinite
      cases hinfinite
    rw [hproduct.overflow hlimit, roundToInt64_infinity]
    simp only [decide_eq_true_eq]
  · obtain ⟨r, hr, hstored⟩ := exists_roundToInt64 hfinite
    rw [hstored]
    constructor
    · intro hk
      exact ⟨r, hr, Word.toInt_nearest_eq_iff.mp (hk.unique hr)⟩
    · rintro ⟨r', hr', hfits⟩
      obtain rfl := hr.unique hr'
      rwa [Word.toInt_nearest_eq_iff.mpr hfits]

end Adapter

/-! ## Columns of integers -/

namespace Value

variable {v : Value} {q : ℚ}

/-- What becomes of a number in a column of integers. -/
structure StoredAsInteger (v : Value) (q : ℚ) : Prop where
  /-- Without an adapter, a number with a fraction is refused, and no other. -/
  refused : ∀ type bits, DataType.bits? type = some bits →
    (v.coerce? type = none ↔ ∀ i : Int, q ≠ i)
  /-- Every other is stored as the nearest integer of 64 bits, so as itself and in the range of the
  type if and only if it is in that range. -/
  coerced : ∀ type bits stored, DataType.bits? type = some bits → v.coerce? type = some stored →
    ∃ (i : Int) (k : Int64), q = i ∧ stored = .int k ∧ Word.IsNearest i k ∧
      (k.toInt = i ∧ Word.Fits bits k.toInt ↔ Word.Fits bits i)
  /-- An integer is scaled to its product with the factor, or refused as 64 bits do not hold it. -/
  scaledInt : ∀ factor i, v = .int i →
    (∃ k : Int64, (Adapter.scale factor).toStorage v = .ok (.int k) ∧
      (k.toInt : ℚ) = q * factor.toInt) ∨
    ((Adapter.scale factor).toStorage v = .error (.adapter (Adapter.scale factor).name v) ∧
      ¬ Word.Fits 64 (i.toInt * factor.toInt))
  /-- A float is scaled with two roundings, and never refused. -/
  scaledFloat : ∀ factor x, v = .float x → ∃ k : Int64,
    (Adapter.scale factor).toStorage v = .ok (.int k) ∧
      Adapter.ScaledFloat q factor (Binary64.ofInt factor.toInt)
        (x.mul (Binary64.ofInt factor.toInt)) k

/-- A number is stored as an integer without a change if and only if it fits. -/
theorem storedAsInteger_of_number (hv : v.number? = some q) : v.StoredAsInteger q := by
  constructor
  case refused =>
    intro type bits hbits
    rcases coerce?_number hv hbits with ⟨hnone, hfraction⟩ | ⟨i, rfl, hsome⟩
    · exact iff_of_true hnone hfraction
    · exact iff_of_false (by rw [hsome]; simp) fun h => h i rfl
  case coerced =>
    intro type bits stored hbits hstored
    rcases coerce?_number hv hbits with ⟨hnone, -⟩ | ⟨i, rfl, hsome⟩
    · cases hnone.symm.trans hstored
    · obtain rfl := Option.some.inj (hsome.symm.trans hstored)
      refine ⟨i, Word.nearest i, rfl, rfl, Word.isNearest_nearest i, ?_⟩
      constructor
      · rintro ⟨heq, hfits⟩
        rwa [heq] at hfits
      · intro hfits
        have heq := Word.toInt_nearest_eq_iff.mpr (hfits.mono (DataType.bits?_le hbits))
        exact ⟨heq, by rwa [heq]⟩
  case scaledInt =>
    rintro factor i rfl
    obtain rfl := Option.some.inj hv
    simp only [Adapter.toStorage, Adapter.refuse]
    cases hproduct : Adapter.product? i factor with
    | none =>
        refine .inr ⟨rfl, fun hfits => ?_⟩
        have hsome : Adapter.product? i factor = some (Word.nearest (i.toInt * factor.toInt)) :=
          Word.signed?_eq_some_iff.mpr (Word.toInt_nearest_eq_iff.mpr hfits)
        cases hproduct.symm.trans hsome
    | some k =>
        refine .inl ⟨k, rfl, ?_⟩
        exact_mod_cast Word.signed?_eq_some_iff.mp hproduct
  case scaledFloat =>
    rintro factor x rfl
    obtain ⟨hfinite, hq⟩ := Option.ite_none_right_eq_some.mp hv
    obtain rfl := Option.some.inj hq
    exact ⟨_, rfl, Adapter.scaledFloat_of_isFinite hfinite factor⟩

/-! ## Amounts -/

/-- The amount 12.25, of which cents are stored. -/
def amount : Value :=
  .float ⟨0x4028800000000000⟩

/-- Two to the power of 63, one more than the largest integer of 64 bits. -/
def tooLarge : Value :=
  .float ⟨0x43e0000000000000⟩

theorem number?_amount : amount.number? = some (49 / 4) := by
  have hsign : Binary64.isNegative ⟨0x4028800000000000⟩ = false := by decide
  have hsignificand : Binary64.significand ⟨0x4028800000000000⟩ = 6896136929411072 := by decide
  have hexponent : Binary64.exponent ⟨0x4028800000000000⟩ = -49 := by decide
  have hvalue : Binary64.toRat ⟨0x4028800000000000⟩ = 49 / 4 := by
    rw [Binary64.toRat, Binary64.sign, hsign, hsignificand, hexponent]
    norm_num
  rw [amount, number?, if_pos (by decide), hvalue]

theorem storedAsInteger_amount : amount.number? = some (49 / 4) ∧
    (Adapter.scale 100).toStorage amount = .ok (.int 1225) ∧ amount.StoredAsInteger (49 / 4) :=
  ⟨number?_amount, by decide +kernel, storedAsInteger_of_number number?_amount⟩

/-- It is not refused but changed to the largest integer, and an integer of 64 bits is stored where
32 bits are meant. -/
theorem tooLarge_stored : tooLarge.number? = some (2 ^ 63) ∧
    tooLarge.coerce? .int64 = some (.int Int64.maxValue) ∧
    (Adapter.scale 1).toStorage tooLarge = .ok (.int Int64.maxValue) ∧
    ((Int64.maxValue.toInt : Int) : ℚ) ≠ 2 ^ 63 ∧
    (int 2147483648).coerce? .int32 = some (.int 2147483648) ∧
    ¬ Word.Fits 32 (2147483648 : Int64).toInt := by
  have hsign : Binary64.isNegative ⟨0x43e0000000000000⟩ = false := by decide
  have hsignificand : Binary64.significand ⟨0x43e0000000000000⟩ = 2 ^ 52 := by decide
  have hexponent : Binary64.exponent ⟨0x43e0000000000000⟩ = 11 := by decide
  have hvalue : Binary64.toRat ⟨0x43e0000000000000⟩ = 2 ^ 63 := by
    rw [Binary64.toRat, Binary64.sign, hsign, hsignificand, hexponent]
    norm_num
  refine ⟨?_, by decide +kernel, by decide +kernel, ?_, by decide, ?_⟩
  · rw [tooLarge, number?, if_pos (by decide), hvalue]
  · rw [Int64.toInt_maxValue]
    norm_num
  · have hint : (2147483648 : Int64).toInt = 2 ^ 31 := by decide
    rw [hint, Word.Fits]
    decide

end Value

end EntityMap
