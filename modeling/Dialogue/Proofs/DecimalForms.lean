import Dialogue.Decimal.Arithmetic
import Mathlib.Data.Nat.Digits.Lemmas
import Mathlib.Tactic.Ring

/-! Digit counts and normal forms. Where the leading digit stands depends on the value and not on the
zeros at its end, so magnitudes are worked out on mantissas before they are normalized. -/

namespace Dialogue

namespace Digits

theorem count_eq_log (n : Nat) : count n = Nat.log 10 n + 1 := by
  fun_induction count n with
  | case1 n small => rw [Nat.log_of_lt small]
  | case2 n large ih => rw [ih, Nat.log_of_one_lt_of_le (by decide) (Nat.not_lt.mp large)]

theorem count_pos (n : Nat) : 0 < count n := by simp [count_eq_log]

theorem lt_pow_count (n : Nat) : n < 10 ^ count n := by
  rw [count_eq_log]
  exact Nat.lt_pow_succ_log_self (by decide) n

theorem pow_le_of_pos {n : Nat} (positive : n ≠ 0) : 10 ^ (count n - 1) ≤ n := by
  rw [count_eq_log]
  exact Nat.pow_log_le_self 10 positive

theorem count_eq_of_bounds {n k : Nat} (low : 10 ^ k ≤ n) (high : n < 10 ^ (k + 1)) : count n = k + 1 := by
  rw [count_eq_log, (Nat.log_eq_iff (.inr ⟨by decide, ?_⟩)).mpr ⟨low, high⟩]
  exact fun zero => absurd (zero ▸ low) (by simp)

theorem count_le_of_lt {n k : Nat} (positive : 0 < k) (small : n < 10 ^ k) : count n ≤ k := by
  rw [count_eq_log]
  have := Nat.log_lt_of_lt_pow' (b := 10) (by omega : k ≠ 0) small
  omega

theorem count_mono {n m : Nat} (below : n ≤ m) : count n ≤ count m := by
  simp only [count_eq_log]
  have := Nat.log_mono_right (b := 10) below
  omega

private theorem count_mul_pow {n : Nat} (positive : n ≠ 0) (k : Nat) : count (n * 10 ^ k) = count n + k := by
  simp only [count_eq_log]
  induction k with
  | zero => simp
  | succ k ih =>
    rw [pow_succ, ← Nat.mul_assoc, Nat.log_mul_base (by decide) (by positivity)]
    omega

/-- Digits that are cut off at the end are missing from the count. -/
theorem count_div_pow {n k : Nat} (fewer : k < count n) : count (n / 10 ^ k) = count n - k := by
  rw [count_eq_log] at fewer ⊢
  rw [count_eq_log, Nat.log_div_base_pow]
  omega

end Digits

namespace Decimal

/-- The last digit of the mantissa is no zero, and zero is written in one way. -/
def Normal (d : Decimal) : Prop := d.mantissa = 0 ∧ d.exponent = 0 ∨ d.mantissa % 10 ≠ 0

theorem normal_is_normal (mantissa exponent : Int) : (normal mantissa exponent).Normal := by
  fun_induction normal mantissa exponent with
  | case1 => exact .inl ⟨rfl, rfl⟩
  | case2 _ _ _ _ ih => exact ih
  | case3 _ _ _ last => exact .inr last

theorem Normal.normal_eq {d : Decimal} (written : d.Normal) : normal d.mantissa d.exponent = d := by
  obtain ⟨mantissa, exponent⟩ := d
  unfold normal
  rcases written with ⟨zero, least⟩ | last
  · simp only at zero least
    simp [zero, least, Decimal.zero]
  · simp only at last
    have nonzero : mantissa ≠ 0 := by omega
    rw [if_neg nonzero, if_neg last]

theorem normal_mul_pow (mantissa exponent : Int) (k : Nat) :
    normal (mantissa * 10 ^ k) exponent = normal mantissa (exponent + k) := by
  induction k generalizing exponent with
  | zero => simp
  | succ k ih =>
    by_cases zero : mantissa = 0
    · simp [normal, zero]
    · have shifted : mantissa * 10 ^ (k + 1) = mantissa * 10 ^ k * 10 := by ring
      have positive : mantissa * 10 ^ (k + 1) ≠ 0 := by positivity
      conv => lhs; unfold normal
      rw [if_neg positive, shifted, if_pos (Int.mul_emod_left ..), Int.mul_ediv_cancel _ (by decide), ih]
      congr 1
      push_cast
      ring

@[simp] theorem isZero_normal (mantissa exponent : Int) :
    (normal mantissa exponent).isZero = decide (mantissa = 0) := by
  fun_induction normal mantissa exponent with
  | case1 => rfl
  | case2 mantissa exponent nonzero last ih =>
    rw [ih]
    have : mantissa / 10 ≠ 0 := by omega
    simp [nonzero, this]
  | case3 mantissa exponent nonzero last => simp [isZero, nonzero]

private theorem natAbs_div_ten {mantissa : Int} (last : mantissa % 10 = 0) :
    mantissa.natAbs = (mantissa / 10).natAbs * 10 ^ 1 := by
  omega

/-- The leading digit of a mantissa that is not zero stays where it is. -/
theorem adjusted_normal {mantissa : Int} (nonzero : mantissa ≠ 0) (exponent : Int) :
    (normal mantissa exponent).adjusted = exponent + (Digits.count mantissa.natAbs - 1 : Int) := by
  fun_induction normal mantissa exponent with
  | case1 => contradiction
  | case2 mantissa exponent _ last ih =>
    have rest : mantissa / 10 ≠ 0 := by omega
    rw [ih rest, natAbs_div_ten last, Digits.count_mul_pow (by omega)]
    push_cast
    ring
  | case3 mantissa exponent nonzero last => simp [adjusted, isZero, nonzero, digits]

/-- The tens that a mantissa ends in are counted by the exponent. -/
theorem normal_parts {mantissa : Int} (nonzero : mantissa ≠ 0) (exponent : Int) :
    ∃ places : Nat, (normal mantissa exponent).exponent = exponent + places ∧
      mantissa = (normal mantissa exponent).mantissa * 10 ^ places := by
  fun_induction normal mantissa exponent with
  | case1 => contradiction
  | case2 mantissa exponent _ last ih =>
    obtain ⟨places, shifted, parts⟩ := ih (by omega)
    refine ⟨places + 1, by rw [shifted]; push_cast; ring, ?_⟩
    rw [pow_succ, ← mul_assoc, ← parts]
    omega
  | case3 => exact ⟨0, by simp, by simp⟩

theorem exponent_le_normal {mantissa : Int} (nonzero : mantissa ≠ 0) (exponent : Int) :
    exponent ≤ (normal mantissa exponent).exponent := by
  obtain ⟨places, shifted, -⟩ := normal_parts nonzero exponent
  omega

theorem digits_normal_le (mantissa exponent : Int) :
    (normal mantissa exponent).digits ≤ Digits.count mantissa.natAbs := by
  fun_induction normal mantissa exponent with
  | case1 => exact Digits.count_mono (by simp [zero])
  | case2 mantissa exponent nonzero last ih =>
    exact ih.trans (Digits.count_mono (by omega))
  | case3 => exact le_rfl

/-- A power of ten keeps a single digit. -/
theorem digits_normal_pow {mantissa : Int} {k : Nat} (power : mantissa.natAbs = 10 ^ k) (exponent : Int) :
    (normal mantissa exponent).digits = 1 := by
  have signed : mantissa = mantissa.sign * 10 ^ k := by
    conv_lhs => rw [← Int.sign_mul_natAbs mantissa, power]
    push_cast
    rfl
  have nonzero : mantissa.natAbs ≠ 0 := power ▸ by positivity
  rw [signed, normal_mul_pow]
  rcases Int.lt_or_gt_of_ne (Int.natAbs_ne_zero.mp nonzero) with negative | positive
  · simp [Int.sign_eq_neg_one_of_neg negative, normal, digits, Digits.count]
  · simp [Int.sign_eq_one_of_pos positive, normal, digits, Digits.count]

end Decimal

end Dialogue
