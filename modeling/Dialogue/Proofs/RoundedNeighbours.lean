import Dialogue.Proofs.RoundedValues

/-! The neighbours that a rounding chooses between. Rounding is monotone and leaves alone what has few enough
digits, so whatever bounds a number and has few enough digits bounds its rounding too. -/

namespace Dialogue.Rounding

variable {mode : Rounding} {precision guard : Nat} {x y : ℚ} {n k : ℤ}

theorem nearest_of_lt (below : Int.fract x < 1 / 2) (tie : ℤ) : nearest x tie = ⌊x⌋ := by
  rw [nearest, compare_lt_iff_lt.mpr below]

theorem nearest_of_eq (half : Int.fract x = 1 / 2) (tie : ℤ) : nearest x tie = tie := by
  rw [nearest, compare_eq_iff_eq.mpr half]

theorem nearest_of_gt (above : 1 / 2 < Int.fract x) (tie : ℤ) : nearest x tie = ⌈x⌉ := by
  rw [nearest, compare_gt_iff_gt.mpr above]

private theorem floor_le_nearest {tie : ℤ} (least : ⌊x⌋ ≤ tie) : ⌊x⌋ ≤ nearest x tie := by
  unfold nearest
  split
  · exact le_rfl
  · exact least
  · exact Int.floor_le_ceil x

private theorem nearest_le_ceil {tie : ℤ} (most : tie ≤ ⌈x⌉) : nearest x tie ≤ ⌈x⌉ := by
  unfold nearest
  split
  · exact Int.floor_le_ceil x
  · exact most
  · exact le_rfl

theorem preferred_bounds (mode : Rounding) (x : ℚ) : ⌊x⌋ ≤ mode.preferred x ∧ mode.preferred x ≤ ⌈x⌉ := by
  have order := Int.floor_le_ceil x
  cases mode <;> simp only [preferred, inward, outward] <;> constructor
  all_goals first | exact order | exact le_rfl | (split_ifs <;> simp [order])

/-- A number goes to one of the whole numbers around it. -/
theorem whole_bounds (mode : Rounding) (x : ℚ) : ⌊x⌋ ≤ mode.whole x ∧ mode.whole x ≤ ⌈x⌉ := by
  obtain ⟨least, most⟩ := preferred_bounds mode x
  unfold whole
  split_ifs
  · exact ⟨floor_le_nearest least, nearest_le_ceil most⟩
  · exact ⟨least, most⟩

/-- Between the same neighbours the fractions decide. -/
private theorem nearest_mono {tie : ℤ} (below : x ≤ y) (floor : ⌊x⌋ = ⌊y⌋) (ceil : ⌈x⌉ = ⌈y⌉) (least : ⌊y⌋ ≤ tie)
    (most : tie ≤ ⌈y⌉) : nearest x tie ≤ nearest y tie := by
  have order : Int.fract x ≤ Int.fract y := by
    rw [Int.fract, Int.fract, floor]
    exact sub_le_sub_right below _
  rcases lt_trichotomy (Int.fract x) (1 / 2) with low | half | high
  · rw [nearest_of_lt low, floor]
    exact floor_le_nearest least
  · rw [nearest_of_eq half]
    rcases (half ▸ order).eq_or_lt with half' | high
    · rw [nearest_of_eq half'.symm]
    · rwa [nearest_of_gt high]
  · rw [nearest_of_gt high, nearest_of_gt (high.trans_le order), ceil]

theorem whole_mono (mode : Rounding) (below : x ≤ y) : mode.whole x ≤ mode.whole y := by
  by_cases apart : ⌈x⌉ ≤ ⌊y⌋
  · exact (whole_bounds mode x).2.trans (apart.trans (whole_bounds mode y).1)
  · have above : (⌊y⌋ : ℚ) < x := Int.lt_ceil.mp (not_le.mp apart)
    have floor : ⌊x⌋ = ⌊y⌋ := le_antisymm (Int.floor_mono below) (Int.le_floor.mpr above.le)
    have ceil : ⌈x⌉ = ⌈y⌉ := by
      have := Int.ceil_mono below
      have := Int.ceil_le_floor_add_one y
      omega
    have sign : (0 ≤ x) ↔ 0 ≤ y := by
      rw [← Int.floor_nonneg, floor, Int.floor_nonneg]
    obtain ⟨least, most⟩ := preferred_bounds mode y
    unfold whole
    rw [preferred_congr floor ceil sign]
    split_ifs
    · exact nearest_mono below floor ceil least most
    · exact le_rfl

private theorem place_zpow (precision : Nat) (k : ℤ) : place precision (10 ^ k) = k + 1 - (max precision 1 : Nat) := by
  have positive : (0 : ℚ) < 10 ^ k := by positivity
  rw [place, abs_of_pos positive, log_eq_of_bounds le_rfl (zpow_lt_zpow_right₀ (by norm_num) (Int.lt_succ k))]

@[simp] theorem significant_zpow (mode : Rounding) (precision : Nat) (k : ℤ) :
    mode.significant precision (10 ^ k) = 10 ^ k := by
  have coarse : place precision (10 ^ k) ≤ k := by
    rw [place_zpow]
    omega
  exact significant_eq_self (n := 1) (by rw [Int.cast_one, one_mul]) coarse

theorem significant_nonneg (mode : Rounding) (precision : Nat) (least : 0 ≤ x) : 0 ≤ mode.significant precision x := by
  have zero : mode.whole 0 = 0 := by exact_mod_cast whole_intCast mode 0
  have unit : (0 : ℚ) < 10 ^ place precision x := by positivity
  have order : mode.whole 0 ≤ mode.whole (x / 10 ^ place precision x) := whole_mono mode (by positivity)
  rw [zero] at order
  exact mul_nonneg (by exact_mod_cast order) unit.le

private theorem significant_le_of_place_eq (mode : Rounding) (same : place precision x = place precision y)
    (below : x ≤ y) :
    mode.significant precision x ≤ mode.significant precision y := by
  have unit : (0 : ℚ) < 10 ^ place precision y := by positivity
  rw [significant, significant, same]
  gcongr
  exact whole_mono mode (by gcongr)

/-- A multiple of the last digit that bounds a number from below bounds its rounding. -/
private theorem multiple_le_significant (mode : Rounding) (below : n * 10 ^ place precision x ≤ x) :
    n * 10 ^ place precision x ≤ mode.significant precision x := by
  have unit : (0 : ℚ) < 10 ^ place precision x := by positivity
  have order := whole_mono mode ((le_div_iff₀ unit).mpr below)
  rw [whole_intCast] at order
  exact mul_le_mul_of_nonneg_right (by exact_mod_cast order) unit.le

private theorem significant_le_multiple (mode : Rounding) (above : x ≤ n * 10 ^ place precision x) :
    mode.significant precision x ≤ n * 10 ^ place precision x := by
  have unit : (0 : ℚ) < 10 ^ place precision x := by positivity
  have order := whole_mono mode ((div_le_iff₀ unit).mpr above)
  rw [whole_intCast] at order
  exact mul_le_mul_of_nonneg_right (by exact_mod_cast order) unit.le

theorem zpow_eq_multiple {i j : ℤ} (order : j ≤ i) : ∃ n : ℤ, (10 : ℚ) ^ i = n * 10 ^ j := by
  obtain ⟨zeros, shift⟩ := Int.le.dest order
  refine ⟨10 ^ zeros, ?_⟩
  rw [← shift, zpow_add₀ (by norm_num), zpow_natCast, mul_comm]
  norm_cast

/-- Between two powers of ten that follow each other a rounding stays there. -/
theorem significant_bounds (mode : Rounding) (precision : Nat) (positive : 0 < x) :
    (10 : ℚ) ^ Int.log 10 x ≤ mode.significant precision x ∧ mode.significant precision x ≤ 10 ^ (Int.log 10 x + 1) := by
  have near : place precision x ≤ Int.log 10 x := by
    rw [place, abs_of_pos positive]
    omega
  obtain ⟨low, lower⟩ := zpow_eq_multiple near
  obtain ⟨high, upper⟩ := zpow_eq_multiple (Int.le_add_one near)
  rw [lower, upper]
  constructor
  · apply multiple_le_significant
    rw [← lower]
    exact Int.zpow_log_le_self (by decide) positive
  · apply significant_le_multiple
    rw [← upper]
    exact (Int.lt_zpow_succ_log_self (by decide) x).le

private theorem significant_mono_of_nonneg (mode : Rounding) (precision : Nat) (least : 0 ≤ x) (below : x ≤ y) :
    mode.significant precision x ≤ mode.significant precision y := by
  rcases least.eq_or_lt with rfl | positive
  · rw [significant_zero]
    exact significant_nonneg mode precision below
  · have later := positive.trans_le below
    rcases (Int.log_mono_right (b := 10) positive below).eq_or_lt with same | apart
    · apply significant_le_of_place_eq mode _ below
      rw [place, place, abs_of_pos positive, abs_of_pos later, same]
    · calc
        mode.significant precision x ≤ 10 ^ (Int.log 10 x + 1) := (significant_bounds mode precision positive).2
        _ ≤ 10 ^ Int.log 10 y := zpow_le_zpow_right₀ (by norm_num) apart
        _ ≤ mode.significant precision y := (significant_bounds mode precision later).1

theorem significant_mono (mode : Rounding) (precision : Nat) (below : x ≤ y) :
    mode.significant precision x ≤ mode.significant precision y := by
  have opposite (z : ℚ) : mode.significant precision z = -mode.mirrored.significant precision (-z) := by
    rw [← significant_neg, neg_neg]
  rcases le_total 0 x with least | most
  · exact significant_mono_of_nonneg mode precision least below
  · rcases le_total 0 y with above | under
    · have lower := significant_nonneg mode precision above
      have upper := significant_nonneg mode.mirrored precision (neg_nonneg.mpr most)
      rw [opposite x]
      linarith
    · rw [opposite x, opposite y, neg_le_neg_iff]
      exact significant_mono_of_nonneg _ _ (neg_nonneg.mpr under) (neg_le_neg below)

/-- Magnitudes are rounded in the mode itself or in its mirror image. -/
private theorem abs_significant (mode : Rounding) (precision : Nat) (x : ℚ) :
    ∃ other : Rounding, |mode.significant precision x| = other.significant precision |x| := by
  rcases le_total 0 x with least | most
  · refine ⟨mode, ?_⟩
    rw [abs_of_nonneg least, abs_of_nonneg (significant_nonneg mode precision least)]
  · refine ⟨mode.mirrored, ?_⟩
    have opposite := significant_neg mode precision (-x)
    rw [neg_neg] at opposite
    rw [opposite, abs_neg, abs_of_nonpos most]
    exact abs_of_nonneg (significant_nonneg _ _ (neg_nonneg.mpr most))

/-- No rounding takes a magnitude past a power of ten. -/
theorem zpow_le_abs_significant (mode : Rounding) (precision : Nat) (low : (10 : ℚ) ^ k ≤ |x|) :
    (10 : ℚ) ^ k ≤ |mode.significant precision x| := by
  obtain ⟨other, same⟩ := abs_significant mode precision x
  rw [same, ← significant_zpow other precision k]
  exact significant_mono other precision low

theorem abs_significant_le_zpow (mode : Rounding) (precision : Nat) (high : |x| ≤ 10 ^ k) :
    |mode.significant precision x| ≤ 10 ^ k := by
  obtain ⟨other, same⟩ := abs_significant mode precision x
  rw [same, ← significant_zpow other precision k]
  exact significant_mono other precision high

/-- What is no larger than the next power of ten and has no digits below the last one kept stays as it is. -/
theorem significant_of_le (mode : Rounding) {z : ℚ} (multiple : z = n * 10 ^ k) (least : 0 ≤ z)
    (bound : z ≤ 10 ^ (Int.log 10 |x| + 1)) (coarse : place precision x ≤ k) : mode.significant precision z = z := by
  rcases bound.eq_or_lt with power | below
  · rw [power, significant_zpow]
  · rcases least.eq_or_lt with rfl | positive
    · exact significant_zero mode precision
    · have order : Int.log 10 z ≤ Int.log 10 |x| := by
        have := (Int.lt_zpow_iff_log_lt (b := 10) (by decide) positive).mp (by exact_mod_cast below)
        omega
      refine significant_eq_self multiple (le_trans ?_ coarse)
      rw [place, place, abs_of_pos positive]
      omega

end Dialogue.Rounding
