import Dialogue.Proofs.DecimalRange
import Mathlib.Algebra.Order.Field.Power
import Mathlib.Algebra.Order.Field.Rat
import Mathlib.Algebra.Order.Ring.Abs

/-! The rational numbers that decimals stand for. No two decimals in normal form stand for the same number,
and whether a decimal is within range is seen from its number alone. -/

namespace Dialogue.Decimal

variable {d : Decimal}

/-- The number that the decimal stands for. -/
def toRat (d : Decimal) : ℚ := d.mantissa * (10 : ℚ) ^ d.exponent

/-- Zeros at the end of the mantissa move into the exponent. -/
theorem toRat_normal (mantissa exponent : Int) : (normal mantissa exponent).toRat = mantissa * (10 : ℚ) ^ exponent := by
  fun_induction normal mantissa exponent with
  | case1 => simp [toRat, zero]
  | case2 mantissa exponent nonzero last ih =>
    have whole : (mantissa : ℚ) = (mantissa / 10 : Int) * 10 := by
      exact_mod_cast (Int.ediv_mul_cancel (Int.dvd_of_emod_eq_zero last)).symm
    rw [ih, zpow_add_one₀ (by norm_num), whole]
    ring
  | case3 => rfl

/-- The smaller exponent of two decimals with one number has zeros to spare. -/
theorem Normal.eq_of_exponent_le {a b : Decimal} (written : a.Normal) (other : b.Normal)
    (below : a.exponent ≤ b.exponent) (same : a.toRat = b.toRat) : a = b := by
  obtain ⟨zeros, shift⟩ := Int.le.dest below
  have digits : a.mantissa = b.mantissa * 10 ^ zeros := by
    have positive : (0 : ℚ) < 10 ^ a.exponent := by positivity
    rw [toRat, toRat, ← shift, zpow_add₀ (by norm_num), mul_left_comm, mul_comm, mul_right_inj' positive.ne',
      zpow_natCast] at same
    exact_mod_cast same
  rw [← written.normal_eq, digits, normal_mul_pow, shift, other.normal_eq]

theorem Normal.eq_of_toRat_eq {a b : Decimal} (written : a.Normal) (other : b.Normal) (same : a.toRat = b.toRat) :
    a = b := by
  rcases le_total a.exponent b.exponent with below | above
  · exact written.eq_of_exponent_le other below same
  · exact (other.eq_of_exponent_le written above same.symm).symm

theorem toRat_eq_zero_iff : d.toRat = 0 ↔ d.isZero = true := by
  have positive : (10 : ℚ) ^ d.exponent ≠ 0 := by positivity
  simp [toRat, isZero, positive]

/-- A number lies between the power of ten of its leading digit and the next one. -/
theorem toRat_bounds (nonzero : d.isZero = false) :
    (10 : ℚ) ^ d.adjusted ≤ |d.toRat| ∧ |d.toRat| < 10 ^ (d.adjusted + 1) := by
  have positive : d.mantissa.natAbs ≠ 0 := by simpa [isZero] using nonzero
  have unit : (0 : ℚ) < 10 ^ d.exponent := by positivity
  have places : d.adjusted = (d.digits - 1 : Nat) + d.exponent := by
    have := Digits.count_pos d.mantissa.natAbs
    simp only [adjusted, nonzero, digits, Bool.false_eq_true, if_false]
    omega
  have next : d.adjusted + 1 = d.digits + d.exponent := by
    have := Digits.count_pos d.mantissa.natAbs
    simp only [digits] at places ⊢
    omega
  have magnitude : |d.toRat| = d.mantissa.natAbs * (10 : ℚ) ^ d.exponent := by
    rw [toRat, abs_mul, abs_of_pos unit, Nat.cast_natAbs, Int.cast_abs]
  rw [next, places, magnitude, zpow_add₀ (by norm_num), zpow_add₀ (by norm_num), zpow_natCast, zpow_natCast]
  constructor
  · apply mul_le_mul_of_nonneg_right _ unit.le
    exact_mod_cast Digits.pow_le_of_pos positive
  · apply mul_lt_mul_of_pos_right _ unit
    exact_mod_cast Digits.lt_pow_count d.mantissa.natAbs

/-- The number is zero, or its leading digit is at no power of ten beyond the largest one or its inverse. -/
def Within (value : ℚ) : Prop :=
  value = 0 ∨ (10 : ℚ) ^ (-maxExponent : Int) ≤ |value| ∧ |value| < 10 ^ (maxExponent + 1)

theorem inRange_iff_toRat : d.InRange ↔ Within d.toRat := by
  unfold InRange Within
  rw [toRat_eq_zero_iff]
  cases none : d.isZero with
  | true => simp
  | false =>
    obtain ⟨low, high⟩ := toRat_bounds none
    have larger : (1 : ℚ) < 10 := by norm_num
    generalize maxExponent = top
    rw [← zpow_natCast]
    simp only [Bool.false_eq_true, false_or]
    constructor
    · intro near
      refine ⟨le_trans ?_ low, high.trans_le ?_⟩
      · exact (zpow_le_zpow_iff_right₀ larger).mpr (by omega)
      · exact (zpow_le_zpow_iff_right₀ larger).mpr (by omega)
    · rintro ⟨least, most⟩
      have above := (zpow_lt_zpow_iff_right₀ larger).mp (least.trans_lt high)
      have below := (zpow_lt_zpow_iff_right₀ larger).mp (low.trans_lt most)
      omega

end Dialogue.Decimal
