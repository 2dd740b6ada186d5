import Dialogue.Proofs.RoundedArithmetic

/-! The order of decimals is the order of the numbers that they stand for, although digits are compared only where
the leading digits stand at the same power of ten. -/

namespace Dialogue.Decimal

open Rounding

variable {a b : Decimal}

/-- The sign of the mantissa tells on which side of zero the number lies. -/
theorem sign_cases (d : Decimal) :
    d.toRat < 0 ∧ d.sign = -1 ∨ d.toRat = 0 ∧ d.sign = 0 ∨ 0 < d.toRat ∧ d.sign = 1 := by
  have unit : (0 : ℚ) < 10 ^ d.exponent := by positivity
  rcases lt_trichotomy d.mantissa 0 with below | zero | above
  · exact .inl ⟨mul_neg_of_neg_of_pos (by exact_mod_cast below) unit, Int.sign_eq_neg_one_of_neg below⟩
  · exact .inr (.inl ⟨by simp [toRat, zero], by simp [sign, zero]⟩)
  · exact .inr (.inr ⟨mul_pos (by exact_mod_cast above) unit, Int.sign_eq_one_of_pos above⟩)

private theorem toRat_lt_of_sign_lt (below : a.sign < b.sign) : a.toRat < b.toRat := by
  rcases sign_cases a with ⟨down, sign⟩ | ⟨zero, sign⟩ | ⟨up, sign⟩ <;>
    rcases sign_cases b with ⟨down', sign'⟩ | ⟨zero', sign'⟩ | ⟨up', sign'⟩
  all_goals linarith

private theorem abs_toRat_scaledTo {d : Decimal} {place : Int} (below : place ≤ d.exponent) :
    |d.toRat| = (d.scaledTo place).natAbs * 10 ^ place := by
  have unit : (0 : ℚ) < 10 ^ place := by positivity
  rw [← toRat_scaledTo below, abs_mul, abs_of_pos unit, Nat.cast_natAbs, Int.cast_abs]

/-- Magnitudes compare as their digits do down to a common place. -/
theorem compare_scaledTo {place : Int} (first : place ≤ a.exponent) (second : place ≤ b.exponent) :
    compare (a.scaledTo place).natAbs (b.scaledTo place).natAbs = compare |a.toRat| |b.toRat| := by
  have unit : (0 : ℚ) < 10 ^ place := by positivity
  rw [abs_toRat_scaledTo first, abs_toRat_scaledTo second]
  apply compare_congr
  · rw [mul_le_mul_iff_of_pos_right unit, Nat.cast_le]
  · rw [mul_le_mul_iff_of_pos_right unit, Nat.cast_le]

private theorem compareMagnitudes_eq (a b : Decimal) : a.compareMagnitudes b = compare |a.toRat| |b.toRat| :=
  compare_scaledTo (min_le_left ..) (min_le_right ..)

/-- A leading digit further up makes a number larger whatever the other digits are. -/
private theorem abs_toRat_lt_of_adjusted_lt (first : a.isZero = false) (second : b.isZero = false)
    (below : a.adjusted < b.adjusted) : |a.toRat| < |b.toRat| :=
  (abs_toRat_lt first below).trans_le (toRat_bounds second).1

private theorem compare_adjusted_then (first : a.isZero = false) (second : b.isZero = false) :
    (compare a.adjusted b.adjusted).then (a.compareMagnitudes b) = compare |a.toRat| |b.toRat| := by
  rcases lt_trichotomy a.adjusted b.adjusted with below | same | above
  · rw [compare_lt_iff_lt.mpr below, compare_lt_iff_lt.mpr (abs_toRat_lt_of_adjusted_lt first second below)]
    rfl
  · rw [compare_eq_iff_eq.mpr same, compareMagnitudes_eq]
    rfl
  · rw [compare_gt_iff_gt.mpr above, compare_gt_iff_gt.mpr (abs_toRat_lt_of_adjusted_lt second first above)]
    rfl

/-- Unless two numbers lie on the same side of zero, their signs decide. -/
private theorem compare_sign (apart : compare a.sign b.sign ≠ .eq ∨ a.isZero = true) :
    compare a.sign b.sign = compare a.toRat b.toRat := by
  rcases lt_trichotomy a.sign b.sign with below | same | above
  · rw [compare_lt_iff_lt.mpr below, compare_lt_iff_lt.mpr (toRat_lt_of_sign_lt below)]
  · have nothing : a.isZero = true := apart.resolve_left (absurd (compare_eq_iff_eq.mpr same))
    have other : b.isZero = true := by
      simp only [isZero, beq_iff_eq] at nothing ⊢
      simpa [sign, nothing] using same.symm
    rw [toRat_eq_zero_iff.mpr nothing, toRat_eq_zero_iff.mpr other, compare_eq_iff_eq.mpr same, compare_eq_iff_eq.mpr rfl]
  · rw [compare_gt_iff_gt.mpr above, compare_gt_iff_gt.mpr (toRat_lt_of_sign_lt above)]

theorem cmp_eq_compare (a b : Decimal) : a.cmp b = compare a.toRat b.toRat := by
  simp only [cmp]
  split_ifs with apart negative
  · exact compare_sign apart
  all_goals
    obtain ⟨same, nonzero⟩ := not_or.mp apart
    have sign : a.sign = b.sign := compare_eq_iff_eq.mp (not_not.mp same)
    have first : a.isZero = false := by simpa using nonzero
    have second : b.isZero = false := by
      simp only [isZero, beq_eq_false_iff_ne] at first ⊢
      exact fun zero => first (Int.sign_eq_zero_iff_zero.mp (sign.trans (by simp [Decimal.sign, zero])))
    have side : b.isNegative = a.isNegative := by
      simp only [isNegative, decide_eq_decide, ← Int.sign_eq_neg_one_iff_neg]
      exact Eq.congr_left sign.symm
    rw [compare_adjusted_then first second]
  · have below := toRat_lt_zero_iff.mpr negative
    have other := toRat_lt_zero_iff.mpr (side.trans negative)
    rw [abs_of_neg below, abs_of_neg other, ← Std.OrientedCmp.eq_swap]
    exact compare_congr neg_le_neg_iff neg_le_neg_iff
  · have above := (toRat_pos_iff first).mpr (Bool.not_eq_true _ ▸ negative)
    have other := (toRat_pos_iff second).mpr (side.trans (Bool.not_eq_true _ ▸ negative))
    rw [abs_of_pos above, abs_of_pos other]

theorem toRat_abs (d : Decimal) : d.abs.toRat = |d.toRat| := by
  have unit : (0 : ℚ) < 10 ^ d.exponent := by positivity
  rw [toRat, toRat, abs_mul, abs_of_pos unit, ← Int.cast_abs, ← Int.natCast_natAbs]
  rfl

theorem cmp_abs (a b : Decimal) : a.abs.cmp b.abs = compare |a.toRat| |b.toRat| := by
  rw [cmp_eq_compare, toRat_abs, toRat_abs]

end Dialogue.Decimal
