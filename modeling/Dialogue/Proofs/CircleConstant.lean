import Dialogue.Config
import Dialogue.Proofs.ArctangentSeries
import Dialogue.Proofs.DecimalRange
import Dialogue.Proofs.RoundedNeighbours
import Mathlib.Analysis.Real.Pi.Bounds

/-! The circle constant to every precision a program may set. Machin's identity multiplies what the two series are short
of by sixteen and by four, and ten digits more than are asked for leave room for that. -/

namespace Dialogue

namespace Rounding

variable {mode : Rounding} {precision : Nat} {x : ℚ}

private theorem abs_whole_sub_le (toNearest : mode.isNearest = true) (x : ℚ) : |(mode.whole x : ℚ) - x| ≤ 1 / 2 := by
  have floor := Int.floor_add_fract x
  have positive := Int.fract_nonneg x
  rw [whole, if_pos toNearest]
  rcases lt_trichotomy (Int.fract x) (1 / 2) with below | half | above
  · rw [nearest_of_lt below, abs_le]
    constructor <;> linarith
  · have broken : Int.fract x ≠ 0 := by
      rw [half]
      norm_num
    obtain ⟨least, most⟩ := preferred_bounds mode x
    rw [ceil_eq_floor_add_one broken] at most
    have least : (⌊x⌋ : ℚ) ≤ mode.preferred x := by exact_mod_cast least
    have most : (mode.preferred x : ℚ) ≤ ⌊x⌋ + 1 := by exact_mod_cast most
    rw [nearest_of_eq half, abs_le]
    constructor <;> linarith
  · have broken : Int.fract x ≠ 0 := by linarith
    have small := Int.fract_lt_one x
    rw [nearest_of_gt above, ceil_eq_floor_add_one broken, Int.cast_add, Int.cast_one, abs_le]
    constructor <;> linarith

/-- To the nearest is no more than half a unit of the last digit away. -/
private theorem abs_significant_sub_le (toNearest : mode.isNearest = true) (precision : Nat) (x : ℚ) :
    |mode.significant precision x - x| ≤ 10 ^ place precision x / 2 := by
  have unit : (0 : ℚ) < 10 ^ place precision x := by positivity
  have scaled : mode.significant precision x - x =
      (mode.whole (x / 10 ^ place precision x) - x / 10 ^ place precision x) * 10 ^ place precision x := by
    rw [significant]
    field_simp
  have near := abs_whole_sub_le toNearest (x / 10 ^ place precision x)
  rw [scaled, abs_mul, abs_of_pos unit]
  linarith [mul_le_mul_of_nonneg_right near unit.le]

end Rounding

namespace Decimal

open Finset Rounding

variable {x scale precision : Nat}

/-- Every term of the truncated series is short of the real one by less than a unit. -/
private theorem abs_arctanInverse_sub_sum_le (large : 5 ≤ x) (scale : Nat) :
    |(arctanInverse x (10 ^ scale) : ℝ) -
      10 ^ scale * ∑ k ∈ range (scale + 1), (-1) ^ k * ((x : ℝ)⁻¹ ^ (2 * k + 1) / (2 * k + 1 : Nat))| ≤ scale + 1 := by
  have enough : 10 ^ scale < x ^ (2 * scale + 3) :=
    calc 10 ^ scale ≤ (5 ^ 2) ^ scale := Nat.pow_le_pow_left (by decide) scale
      _ = 5 ^ (2 * scale) := by rw [pow_mul]
      _ ≤ x ^ (2 * scale) := Nat.pow_le_pow_left large _
      _ < x ^ (2 * scale + 3) := Nat.pow_lt_pow_right (by omega) (by omega)
  rw [arctanInverse_eq_sum (by omega) enough, Int.cast_sum, mul_sum, ← sum_sub_distrib]
  refine (abs_sum_le_sum_abs _ _).trans ((sum_le_card_nsmul _ _ 1 ?_).trans_eq (by simp))
  intro k _
  have cut := abs_natCast_div_sub_le (10 ^ scale) (x ^ (2 * k + 1) * (2 * k + 1))
  have same : ((10 ^ scale : Nat) : ℝ) / (x ^ (2 * k + 1) * (2 * k + 1) : Nat) =
      10 ^ scale * ((x : ℝ)⁻¹ ^ (2 * k + 1) / (2 * k + 1 : Nat)) := by
    rw [Nat.cast_mul, Nat.cast_pow, Nat.cast_pow, inv_pow, Nat.cast_ofNat]
    field_simp
  rw [same] at cut
  rw [Int.cast_mul, Int.cast_pow, Int.cast_neg, Int.cast_one, Int.cast_natCast, mul_left_comm, ← mul_sub, abs_mul,
    abs_pow, abs_neg, abs_one, one_pow, one_mul]
  exact cut

/-- A term for each place makes the next one worth less than a unit of the last place. -/
private theorem scaled_term_le_one {y : ℝ} (positive : 0 < y) (fifth : y ≤ 5⁻¹) (scale : Nat) :
    10 ^ scale * (y ^ (2 * (scale + 1) + 1) / (2 * (scale + 1) + 1 : Nat)) ≤ 1 := by
  have power : y ^ (2 * (scale + 1) + 1) ≤ 10⁻¹ ^ scale :=
    calc y ^ (2 * (scale + 1) + 1) ≤ 5⁻¹ ^ (2 * (scale + 1) + 1) := by gcongr
      _ ≤ 5⁻¹ ^ (2 * scale) := pow_le_pow_of_le_one (by norm_num) (by norm_num) (by omega)
      _ ≤ 10⁻¹ ^ scale := by
          rw [pow_mul]
          exact pow_le_pow_left₀ (by norm_num) (by norm_num) scale
  calc 10 ^ scale * (y ^ (2 * (scale + 1) + 1) / (2 * (scale + 1) + 1 : Nat))
      ≤ 10 ^ scale * (10⁻¹ ^ scale / 1) := by
        gcongr
        exact_mod_cast Nat.le_add_left 1 _
    _ = 1 := by rw [div_one, ← mul_pow, mul_inv_cancel₀ (by norm_num), one_pow]

/-- The terms that are left out are worth less than a unit again. -/
private theorem abs_arctanInverse_sub_le (large : 5 ≤ x) (scale : Nat) :
    |(arctanInverse x (10 ^ scale) : ℝ) - 10 ^ scale * Real.arctan (x : ℝ)⁻¹| ≤ scale + 2 := by
  have unity : (0 : ℝ) < 10 ^ scale := by positivity
  have five : (5 : ℝ) ≤ x := by exact_mod_cast large
  have inverse : (0 : ℝ) < (x : ℝ)⁻¹ := by positivity
  have fifth : (x : ℝ)⁻¹ ≤ 5⁻¹ := inv_anti₀ (by norm_num) five
  have cut := abs_arctanInverse_sub_sum_le large scale
  have rest := abs_arctan_sub_sum_le inverse (by linarith) (scale + 1)
  have faint := scaled_term_le_one inverse fifth scale
  have left := mul_le_mul_of_nonneg_left rest unity.le
  rw [← abs_of_pos unity, ← abs_mul, abs_of_pos unity, mul_sub] at left
  rw [abs_sub_le_iff] at *
  constructor <;> linarith

/-- No more rounds than places are needed, as each one takes the square of the denominator from the power. -/
private theorem series_ends (large : 5 ≤ x) (small : x ≤ 10 ^ scale) :
    ∃ rounds ≤ scale, Series.Ends (x * x) (Series.start x (10 ^ scale)) rounds (arctanInverse x (10 ^ scale)) := by
  have left : (Series.start x (10 ^ scale)).power ≠ 0 := (Nat.div_pos small (by omega)).ne'
  have square : 2 ≤ x * x := by nlinarith
  obtain ⟨rounds, bound, ends⟩ := Series.ends_arctanTail square _ left
  refine ⟨rounds, ?_, ends⟩
  have power : 10 ^ rounds ≤ 10 ^ scale :=
    calc 10 ^ rounds ≤ (x * x) ^ rounds := Nat.pow_le_pow_left (by nlinarith) rounds
      _ ≤ 10 ^ scale / x := bound
      _ ≤ 10 ^ scale := Nat.div_le_self ..
  exact (Nat.pow_le_pow_iff_right (by decide)).mp power

/-- The circle constant in units of the last guard digit. -/
def circleUnits (scale : Nat) : Int := (arctanInverse 5 (10 ^ scale) * 4 - arctanInverse 239 (10 ^ scale)) * 4

private theorem abs_circleUnits_sub_le (scale : Nat) :
    |(circleUnits scale : ℝ) - 10 ^ scale * Real.pi| ≤ 20 * (scale + 2) := by
  have machin := Real.four_mul_arctan_inv_5_sub_arctan_inv_239
  have fifth := abs_arctanInverse_sub_le (x := 5) (by decide) scale
  have other := abs_arctanInverse_sub_le (x := 239) (by decide) scale
  have whole : (10 : ℝ) ^ scale * Real.pi =
      (10 ^ scale * Real.arctan 5⁻¹ * 4 - 10 ^ scale * Real.arctan 239⁻¹) * 4 := by
    linear_combination (-4 * 10 ^ scale) * machin
  rw [circleUnits, whole]
  push_cast at fifth other ⊢
  rw [abs_sub_le_iff] at *
  constructor <;> linarith

/-- What is rounded to the precision. -/
def circleEstimate (precision : Nat) : ℚ :=
  circleUnits (precision + guardDigits) / 10 ^ (precision + guardDigits)

/-- The ten guard digits are not used up by what the units are short of. -/
private theorem abs_circleEstimate_sub_le (most : precision ≤ Config.maxPrecision) :
    |(circleEstimate precision : ℝ) - Real.pi| ≤ 1 / 10 ^ 5 * 10 ^ (1 - precision : ℤ) := by
  have unity : (0 : ℝ) < 10 ^ (precision + guardDigits) := by positivity
  have near := abs_circleUnits_sub_le (precision + guardDigits)
  have room : 20 * ((precision + guardDigits : Nat) + 2 : ℝ) ≤ 10 ^ 6 := by
    have fits : 20 * (precision + guardDigits + 2) ≤ 10 ^ 6 := by
      unfold Config.maxPrecision at most
      unfold guardDigits
      omega
    exact_mod_cast fits
  have unit : (1 : ℝ) / 10 ^ 5 * 10 ^ (1 - precision : ℤ) = 10 ^ 6 / 10 ^ (precision + guardDigits) := by
    rw [zpow_sub₀ (by norm_num), zpow_one, zpow_natCast, pow_add, guardDigits]
    field_simp
  have scaled : (circleEstimate precision : ℝ) - Real.pi =
      (circleUnits (precision + guardDigits) - 10 ^ (precision + guardDigits) * Real.pi) /
        10 ^ (precision + guardDigits) := by
    rw [circleEstimate]
    push_cast
    field_simp
  rw [scaled, unit, abs_div, abs_of_pos unity]
  gcongr
  exact near.trans room

private theorem toRat_pi (least : 1 ≤ precision) :
    (pi precision).toRat = Rounding.halfEven.significant precision (circleEstimate precision) := by
  rw [pi, toRat_rounded, toRat_normal, max_eq_left least, zpow_neg, zpow_natCast]
  rfl

/-- What is rounded begins right before the point, so the precision tells where its last digit is. -/
private theorem place_circleEstimate (least : 1 ≤ precision) (most : precision ≤ Config.maxPrecision) :
    place precision (circleEstimate precision) = 1 - precision := by
  have near := abs_circleEstimate_sub_le most
  have fraction : (10 : ℝ) ^ (1 - precision : ℤ) ≤ 1 := zpow_le_one_of_nonpos₀ (by norm_num) (by omega)
  have three := Real.pi_gt_three
  have four := Real.pi_lt_four
  rw [abs_sub_le_iff] at near
  have low : (1 : ℝ) ≤ circleEstimate precision := by linarith
  have high : (circleEstimate precision : ℝ) < 10 := by linarith
  have low : 1 ≤ circleEstimate precision := by exact_mod_cast low
  have high : circleEstimate precision < 10 := by exact_mod_cast high
  have leading : Int.log 10 |circleEstimate precision| = 0 := by
    rw [abs_of_pos (by linarith)]
    exact log_eq_of_bounds (by simpa using low) (by simpa using high)
  rw [place, leading, max_eq_left least, zero_add]

/-- The loops over both series end, and what they leave has so many digits and is off by half a unit of the last of
them and a hundred thousandth at most. -/
theorem pi_accurate (least : Config.minPrecision ≤ precision) (most : precision ≤ Config.maxPrecision) :
    (∀ x, x = 5 ∨ x = 239 → ∃ rounds ≤ precision + guardDigits,
        Series.Ends (x * x) (Series.start x (10 ^ (precision + guardDigits))) rounds
          (arctanInverse x (10 ^ (precision + guardDigits)))) ∧
      (pi precision).digits ≤ precision ∧
      |((pi precision).toRat : ℝ) - Real.pi| ≤ (1 / 2 + 1 / 10 ^ 5) * 10 ^ (1 - precision : ℤ) := by
  have positive : 1 ≤ precision := least
  refine ⟨?_, ?_, ?_⟩
  · intro x known
    have scale : 10 ^ guardDigits ≤ 10 ^ (precision + guardDigits) := Nat.pow_le_pow_right (by decide) (by omega)
    have unity : 239 ≤ 10 ^ guardDigits := by decide
    exact series_ends (by omega) (by omega)
  · have short : (pi precision).digits ≤ max precision 1 := digits_rounded_le
    rwa [max_eq_left positive] at short
  · have near := abs_circleEstimate_sub_le most
    have toNearest : Rounding.halfEven.isNearest = true := rfl
    have rounded := abs_significant_sub_le toNearest precision (circleEstimate precision)
    rw [place_circleEstimate positive most, ← toRat_pi positive, ← Rat.cast_le (K := ℝ)] at rounded
    push_cast at rounded
    have apart := abs_sub_le ((pi precision).toRat : ℝ) (circleEstimate precision) Real.pi
    linarith

/-- Thirty digits of it. -/
theorem pi_accurate_thirty :
    Config.minPrecision ≤ 30 ∧ 30 ≤ Config.maxPrecision ∧ pi 30 = ⟨314159265358979323846264338328, -29⟩ ∧
      |((314159265358979323846264338328 * 10 ^ (-29 : ℤ) : ℚ) : ℝ) - Real.pi| ≤ (1 / 2 + 1 / 10 ^ 5) * 10 ^ (-29 : ℤ) := by
  have known : pi 30 = ⟨314159265358979323846264338328, -29⟩ := by decide +kernel
  have least : Config.minPrecision ≤ 30 := by decide
  have most : 30 ≤ Config.maxPrecision := by decide
  obtain ⟨-, -, near⟩ := pi_accurate least most
  rw [known] at near
  exact ⟨least, most, known, by simpa [toRat] using near⟩

end Decimal

end Dialogue
