import Dialogue.Proofs.NumberText
import Dialogue.Proofs.RoundedNeighbours

/-! Sums, products and quotients are rounded once. The digit that stands in for a far smaller operand, or for the rest
of a division, lies in one cell with it, so no rounding tells the two results apart. -/

namespace Dialogue.Decimal

open Rounding

variable {a b : Decimal} {precision : Nat} {mode : Rounding}

theorem toRat_scaledTo {d : Decimal} {exponent : Int} (below : exponent ≤ d.exponent) :
    d.scaledTo exponent * (10 : ℚ) ^ exponent = d.toRat := by
  obtain ⟨zeros, shift⟩ := Int.le.dest below
  have gap : (d.exponent - exponent).toNat = zeros := by omega
  have power : Int.pow 10 zeros = 10 ^ zeros := rfl
  rw [scaledTo, toRat, gap, power, ← shift, zpow_add₀ (by norm_num), zpow_natCast]
  push_cast
  ring

theorem toRat_exactSum (a b : Decimal) : (a.exactSum b).toRat = a.toRat + b.toRat := by
  rw [exactSum, toRat_normal, Int.cast_add, add_mul, toRat_scaledTo (min_le_left ..), toRat_scaledTo (min_le_right ..)]

theorem toRat_neg (d : Decimal) : d.neg.toRat = -d.toRat := by
  simp [toRat, neg]

theorem toRat_lt_zero_iff {d : Decimal} : d.toRat < 0 ↔ d.isNegative = true := by
  have unit : (0 : ℚ) < 10 ^ d.exponent := by positivity
  rw [toRat, ← not_le, mul_nonneg_iff_of_pos_right unit]
  simp [isNegative]

theorem toRat_pos_iff {d : Decimal} (nonzero : d.isZero = false) : 0 < d.toRat ↔ d.isNegative = false := by
  have other : d.toRat ≠ 0 := by simp [toRat_eq_zero_iff, nonzero]
  rw [← Bool.not_eq_true, ← toRat_lt_zero_iff, not_lt, other.symm.le_iff_lt]

/-- The digit that stands in for an operand that lies below a place. -/
def standIn (small : Decimal) (place : Int) : Decimal := ⟨if small.isNegative then -1 else 1, place - 1⟩

private theorem standIn_small (small : Decimal) (place : Int) : |(small.standIn place).toRat| < 10 ^ place := by
  unfold standIn toRat
  split <;> simp

private theorem standIn_direction {small : Decimal} (nonzero : small.isZero = false) (place : Int) :
    0 < small.toRat ∧ 0 < (small.standIn place).toRat ∨ small.toRat < 0 ∧ (small.standIn place).toRat < 0 := by
  have digit : (small.standIn place).isZero = false := by
    unfold standIn isZero
    split <;> rfl
  have same : (small.standIn place).isNegative = small.isNegative := by
    cases sign : small.isNegative <;> rw [standIn, sign] <;> rfl
  rw [toRat_pos_iff nonzero, toRat_pos_iff digit, toRat_lt_zero_iff, toRat_lt_zero_iff, same]
  cases small.isNegative <;> simp

theorem abs_toRat_lt {d : Decimal} {place : Int} (nonzero : d.isZero = false) (below : d.adjusted < place) :
    |d.toRat| < 10 ^ place := by
  have order : (10 : ℚ) ^ (d.adjusted + 1) ≤ 10 ^ place := zpow_le_zpow_right₀ (by norm_num) below
  exact (toRat_bounds nonzero).2.trans_le order

/-- A sum may lose one place to a borrow from a far smaller operand, and no more. -/
private theorem pred_adjusted_le_log {big : Decimal} {x : ℚ} {place : Int} (counted : big.isZero = false)
    (below : place < big.adjusted) (small : |x| < 10 ^ place) :
    big.adjusted - 1 ≤ Int.log 10 |big.toRat + x| := by
  have top : (10 : ℚ) ^ big.adjusted = 10 * 10 ^ (big.adjusted - 1) := by
    rw [← zpow_one_add₀ (by norm_num)]
    congr 1
    omega
  have spare : (10 : ℚ) ^ place ≤ 10 ^ (big.adjusted - 1) := zpow_le_zpow_right₀ (by norm_num) (by omega)
  have unit : (0 : ℚ) < 10 ^ (big.adjusted - 1) := by positivity
  have low : (10 : ℚ) ^ (big.adjusted - 1) ≤ |big.toRat + x| := by
    have borrow := abs_sub_abs_le_abs_add big.toRat x
    linarith [(toRat_bounds counted).1]
  have positive : 0 < |big.toRat + x| := unit.trans_le low
  exact (Int.zpow_le_iff_le_log (by decide) positive).mp low

/-- The sum with the operand or with the digit that stands in for it is rounded to the same number. -/
theorem significant_sumByMagnitude {big small : Decimal} (counted : big.isZero = false) (nonzero : small.isZero = false)
    (precision : Nat) (mode : Rounding) :
    mode.significant precision (big.sumByMagnitude small precision).toRat =
      mode.significant precision (big.toRat + small.toRat) := by
  simp only [sumByMagnitude]
  split
  next far =>
    generalize reached : min big.exponent (big.adjusted - (max precision 1 : Nat) - 1) - 2 = reach at far
    have small' := abs_toRat_lt nonzero far
    have grid : big.scaledTo reach * (10 : ℚ) ^ reach = big.toRat := toRat_scaledTo (by omega)
    have level := Level.add_of_small (big.scaledTo reach) small' (standIn_small small reach) (standIn_direction nonzero reach)
    rw [grid] at level
    have finer : reach < place precision (big.toRat + small.toRat) := by
      have borrow := pred_adjusted_le_log counted (by omega) small'
      unfold place
      omega
    rw [toRat_exactSum]
    exact ((level.coarsen_half finer).significant_eq mode).symm
  next => rw [toRat_exactSum]

/-- The exact sum may be rounded instead of the one that stops at the reach. -/
private theorem rounded_sumByMagnitude {big small : Decimal} (counted : big.isZero = false)
    (nonzero : small.isZero = false)
    (precision : Nat) (mode : Rounding) :
    (big.sumByMagnitude small precision).rounded precision mode = (big.exactSum small).rounded precision mode := by
  refine (normal_rounded (normal_sumByMagnitude ..) ..).eq_of_toRat_eq (normal_rounded (normal_is_normal ..) ..) ?_
  rw [toRat_rounded, toRat_rounded, significant_sumByMagnitude counted nonzero, toRat_exactSum]

theorem gives_add (first : a.Normal) (second : b.Normal) (precision : Nat) (mode : Rounding) :
    Gives .overflow (mode.significant precision (a.toRat + b.toRat)) (a.add b precision mode) := by
  unfold add
  split_ifs with none nothing order
  · rw [toRat_eq_zero_iff.mpr none, add_zero]
    exact gives_rounded first precision mode
  · rw [toRat_eq_zero_iff.mpr nothing, zero_add]
    exact gives_rounded second precision mode
  · rw [← significant_sumByMagnitude (by simpa using nothing) (by simpa using none)]
    exact gives_rounded (normal_sumByMagnitude ..) precision mode
  · rw [add_comm, ← significant_sumByMagnitude (by simpa using none) (by simpa using nothing)]
    exact gives_rounded (normal_sumByMagnitude ..) precision mode

/-- Sums and differences are rounded once, and a digit may stand in for the smaller operand. -/
theorem sums_rounded_once (first : a.Normal) (second : b.Normal) (precision : Nat) (mode : Rounding) :
    Gives .overflow (mode.significant precision (a.toRat + b.toRat)) (a.add b precision mode) ∧
      Gives .overflow (mode.significant precision (a.toRat - b.toRat)) (a.sub b precision mode) ∧
      (a.isZero = false → b.isZero = false →
        (a.sumByMagnitude b precision).rounded precision mode = (a.exactSum b).rounded precision mode) := by
  refine ⟨gives_add first second precision mode, ?_, fun counted nonzero => rounded_sumByMagnitude counted nonzero _ _⟩
  rw [sub, sub_eq_add_neg, ← toRat_neg]
  exact gives_add first (normal_neg second) precision mode

/-- A thousandth of what is kept is borrowed by an operand a hundred places down. -/
theorem sums_rounded_once_borrowing :
    (⟨1, 0⟩ : Decimal).Normal ∧ (⟨-1, -100⟩ : Decimal).Normal ∧ add ⟨1, 0⟩ ⟨-1, -100⟩ 3 .floor = .ok ⟨999, -3⟩ ∧
      Gives .overflow (Rounding.floor.significant 3 (toRat ⟨1, 0⟩ + toRat ⟨-1, -100⟩)) (add ⟨1, 0⟩ ⟨-1, -100⟩ 3 .floor) ∧
      (sumByMagnitude ⟨1, 0⟩ ⟨-1, -100⟩ 3).rounded 3 .floor = (exactSum ⟨1, 0⟩ ⟨-1, -100⟩).rounded 3 .floor := by
  have first : (⟨1, 0⟩ : Decimal).Normal := .inr (by decide)
  have second : (⟨-1, -100⟩ : Decimal).Normal := .inr (by decide)
  obtain ⟨sum, -, standIn⟩ := sums_rounded_once first second 3 .floor
  exact ⟨first, second, by decide +kernel, sum, standIn rfl rfl⟩

private theorem toRat_exactProduct (a b : Decimal) : (a.exactProduct b).toRat = a.toRat * b.toRat := by
  rw [exactProduct, toRat_normal, toRat, toRat, zpow_add₀ (by norm_num)]
  push_cast
  ring

theorem within_iff {value : ℚ} (nonzero : value ≠ 0) :
    Within value ↔ (10 : ℚ) ^ (-maxExponent : ℤ) ≤ |value| ∧ |value| < 10 ^ (maxExponent + 1 : ℤ) := by
  have power : (10 : ℚ) ^ (maxExponent + 1 : ℤ) = 10 ^ (maxExponent + 1) := by
    exact_mod_cast zpow_natCast (10 : ℚ) (maxExponent + 1)
  simp only [Within, nonzero, false_or, power]

theorem not_within_of_high {value : ℚ} {k : ℤ} (low : (10 : ℚ) ^ k ≤ |value|) (far : (maxExponent : ℤ) < k) :
    ¬Within value := by
  have positive : (0 : ℚ) < 10 ^ k := by positivity
  have power : (10 : ℚ) ^ (maxExponent + 1 : ℤ) ≤ 10 ^ k := zpow_le_zpow_right₀ (by norm_num) far
  rw [within_iff (abs_pos.mp (positive.trans_le low))]
  exact fun ⟨_, most⟩ => absurd most (not_lt.mpr (power.trans low))

private theorem not_within_of_low {value : ℚ} {k : ℤ} (nonzero : value ≠ 0) (high : |value| ≤ 10 ^ k)
    (far : k < -(maxExponent : ℤ)) : ¬Within value := by
  have power : (10 : ℚ) ^ k < 10 ^ (-maxExponent : ℤ) := zpow_lt_zpow_right₀ (by norm_num) far
  rw [within_iff nonzero]
  exact fun ⟨least, _⟩ => absurd least (not_le.mpr (high.trans_lt power))

theorem gives_error_iff {ε : Type} {refusal : ε} {value : ℚ} :
    Gives refusal value (.error refusal) ↔ ¬Within value := by
  constructor
  · intro given range
    obtain ⟨_, impossible, -⟩ := given.within range
    cases impossible
  · intro far
    exact ⟨fun range => absurd range far, fun _ => rfl⟩

private theorem gives_zero {ε : Type} {refusal : ε} : Gives refusal 0 (.ok zero) :=
  ⟨fun _ => ⟨zero, rfl, normal_zero, toRat_eq_zero_iff.mpr rfl⟩, fun far => absurd (.inl rfl) far⟩

/-- The leading digit of a product is where those of the factors put it, or one place higher. -/
private theorem abs_product_bounds (first : a.isZero = false) (second : b.isZero = false) :
    (10 : ℚ) ^ (a.adjusted + b.adjusted) ≤ |a.toRat * b.toRat| ∧
      |a.toRat * b.toRat| ≤ 10 ^ (a.adjusted + b.adjusted + 2) := by
  obtain ⟨lowA, highA⟩ := toRat_bounds first
  obtain ⟨lowB, highB⟩ := toRat_bounds second
  have split : a.adjusted + b.adjusted + 2 = (a.adjusted + 1) + (b.adjusted + 1) := by ring
  rw [abs_mul, split, zpow_add₀ (by norm_num), zpow_add₀ (by norm_num) (a.adjusted + 1)]
  constructor <;> gcongr

/-- The factors lie so far down that the product is refused before it is formed, although it is rounded up to
the least magnitude within range. -/
structure RefusedEarly (a b : Decimal) (precision : Nat) (mode : Rounding) : Prop where
  places : a.adjusted + b.adjusted = -(maxExponent + 2 : ℤ)
  least : |mode.significant precision (a.toRat * b.toRat)| = 10 ^ (-maxExponent : ℤ)

private theorem within_product_iff (first : a.isZero = false) (second : b.isZero = false)
    (far : maxExponent + 1 < (a.adjusted + b.adjusted).natAbs) :
    Within (mode.significant precision (a.toRat * b.toRat)) ↔ RefusedEarly a b precision mode := by
  obtain ⟨low, high⟩ := abs_product_bounds first second
  have lower := zpow_le_abs_significant mode precision low
  have upper := abs_significant_le_zpow mode precision high
  have unit : (0 : ℚ) < 10 ^ (a.adjusted + b.adjusted) := by positivity
  have nonzero := abs_pos.mp (unit.trans_le lower)
  constructor
  · intro range
    have below : ¬(maxExponent : ℤ) < a.adjusted + b.adjusted := fun above => not_within_of_high lower above range
    have above : ¬a.adjusted + b.adjusted + 2 < -(maxExponent : ℤ) :=
      fun below => not_within_of_low nonzero upper below range
    have places : a.adjusted + b.adjusted = -(maxExponent + 2 : ℤ) := by omega
    refine ⟨places, le_antisymm ?_ ((within_iff nonzero).mp range).1⟩
    rwa [places, neg_add, neg_add_cancel_right] at upper
  · intro refused
    rw [within_iff nonzero, refused.least]
    exact ⟨le_rfl, zpow_lt_zpow_right₀ (by norm_num) (by omega)⟩

/-- A product is rounded once, or refused where the rounded product is out of range, save for the products that are
refused early. -/
theorem product_rounded_once_iff (a b : Decimal) (precision : Nat) (mode : Rounding) :
    (Gives .overflow (mode.significant precision (a.toRat * b.toRat)) (a.mul b precision mode) ↔
        ¬RefusedEarly a b precision mode) ∧
      (RefusedEarly a b precision mode → a.mul b precision mode = .error .overflow) := by
  unfold mul
  split_ifs with nothing far
  · have product : a.toRat * b.toRat = 0 := by
      rw [Bool.or_eq_true, ← toRat_eq_zero_iff, ← toRat_eq_zero_iff] at nothing
      exact mul_eq_zero.mpr nothing
    have formed : ¬RefusedEarly a b precision mode := by
      intro refused
      have power : (0 : ℚ) < 10 ^ (-maxExponent : ℤ) := by positivity
      rw [← refused.least, product, significant_zero, abs_zero] at power
      exact power.false
    rw [product, significant_zero]
    exact ⟨iff_of_true gives_zero formed, fun refused => absurd refused formed⟩
  · obtain ⟨first, second⟩ : a.isZero = false ∧ b.isZero = false := by
      simpa using nothing
    rw [gives_error_iff, within_product_iff first second far]
    exact ⟨Iff.rfl, fun _ => rfl⟩
  · have formed : ¬RefusedEarly a b precision mode := by
      intro refused
      have := refused.places
      omega
    rw [← toRat_exactProduct]
    exact ⟨iff_of_true (gives_rounded (normal_is_normal ..) precision mode) formed, fun refused => absurd refused formed⟩

/-- Its square has its leading digit two places below the range. -/
def nines : Decimal := ⟨999, -500003⟩

theorem square_refused_early :
    nines.mul nines 2 .halfEven = .error .overflow ∧
      ¬Gives .overflow (Rounding.halfEven.significant 2 (nines.toRat * nines.toRat)) (nines.mul nines 2 .halfEven) := by
  have refused : nines.mul nines 2 .halfEven = .error .overflow := by decide +kernel
  have range : ((nines.exactProduct nines).rounded 2 .halfEven).InRange := by decide +kernel
  rw [inRange_iff_toRat, toRat_rounded, toRat_exactProduct] at range
  rw [refused, gives_error_iff]
  exact ⟨rfl, fun far => far range⟩

/-- The leading digit of a quotient is where those of the operands put it, or one place lower. -/
private theorem abs_quotient_bounds (first : a.isZero = false) (second : b.isZero = false) :
    (10 : ℚ) ^ (a.adjusted - b.adjusted - 1) ≤ |a.toRat / b.toRat| ∧
      |a.toRat / b.toRat| ≤ 10 ^ (a.adjusted - b.adjusted + 1) := by
  obtain ⟨lowA, highA⟩ := toRat_bounds first
  obtain ⟨lowB, highB⟩ := toRat_bounds second
  have least : (0 : ℚ) < 10 ^ b.adjusted := by positivity
  have lower : a.adjusted - b.adjusted - 1 = a.adjusted - (b.adjusted + 1) := by ring
  have upper : a.adjusted - b.adjusted + 1 = (a.adjusted + 1) - b.adjusted := by ring
  rw [abs_div, lower, upper, zpow_sub₀ (by norm_num), zpow_sub₀ (by norm_num)]
  constructor
  · apply div_le_div₀ (abs_nonneg _) lowA (least.trans_le lowB) highB.le
  · apply div_le_div₀ (by positivity) highA.le least lowB

/-- The integer quotient and what its rest adds to it, in units of the place down to which the dividend is scaled. -/
private theorem toRat_div (a : Decimal) {b : Decimal} (second : b.isZero = false) (shift : Nat) :
    a.toRat / b.toRat =
      (a.mantissa * 10 ^ shift).tdiv b.mantissa * (10 : ℚ) ^ (a.exponent - b.exponent - shift) +
        (a.mantissa * 10 ^ shift).tmod b.mantissa / b.mantissa * 10 ^ (a.exponent - b.exponent - shift) := by
  have divisor : (b.mantissa : ℚ) ≠ 0 := by
    simpa [isZero] using second
  have parts : ((a.mantissa * 10 ^ shift : ℤ) : ℚ) =
      b.mantissa * (a.mantissa * 10 ^ shift).tdiv b.mantissa + (a.mantissa * 10 ^ shift).tmod b.mantissa := by
    exact_mod_cast (Int.mul_tdiv_add_tmod (a.mantissa * 10 ^ shift) b.mantissa).symm
  have joined : ((a.mantissa * 10 ^ shift).tdiv b.mantissa : ℚ) + (a.mantissa * 10 ^ shift).tmod b.mantissa / b.mantissa =
      a.mantissa * 10 ^ shift / b.mantissa := by
    rw [add_div' _ _ _ divisor, mul_comm _ (b.mantissa : ℚ), ← parts]
    push_cast
    rfl
  rw [← add_mul, joined, toRat, toRat, zpow_sub₀ (by norm_num), zpow_sub₀ (by norm_num), zpow_natCast]
  field_simp

/-- The rest of an integer quotient goes on in the direction of the quotient. -/
private theorem rest_direction {rest : ℤ} (first : a.isZero = false) (second : b.isZero = false)
    (sign : rest.sign = a.mantissa.sign) :
    (0 : ℚ) < rest / b.mantissa ∧ (a.isNegative == b.isNegative) = true ∨
      (rest / b.mantissa : ℚ) < 0 ∧ (a.isNegative == b.isNegative) = false := by
  have dividend : a.mantissa ≠ 0 := by simpa [isZero] using first
  have divisor : b.mantissa ≠ 0 := by simpa [isZero] using second
  simp only [isNegative]
  rcases lt_or_gt_of_ne dividend with down | up <;> rcases lt_or_gt_of_ne divisor with below | above
  · have rest_neg : rest < 0 := by
      rwa [Int.sign_eq_neg_one_of_neg down, Int.sign_eq_neg_one_iff_neg] at sign
    left
    refine ⟨div_pos_of_neg_of_neg (by exact_mod_cast rest_neg) (by exact_mod_cast below), ?_⟩
    simp [down, below]
  · have rest_neg : rest < 0 := by
      rwa [Int.sign_eq_neg_one_of_neg down, Int.sign_eq_neg_one_iff_neg] at sign
    right
    refine ⟨div_neg_of_neg_of_pos (by exact_mod_cast rest_neg) (by exact_mod_cast above), ?_⟩
    simp [down, above.le]
  · have rest_pos : 0 < rest := by
      rwa [Int.sign_eq_one_of_pos up, Int.sign_eq_one_iff_pos] at sign
    right
    refine ⟨div_neg_of_pos_of_neg (by exact_mod_cast rest_pos) (by exact_mod_cast below), ?_⟩
    simp [up.le, below]
  · have rest_pos : 0 < rest := by
      rwa [Int.sign_eq_one_of_pos up, Int.sign_eq_one_iff_pos] at sign
    left
    refine ⟨div_pos (by exact_mod_cast rest_pos) (by exact_mod_cast above), ?_⟩
    simp [up.not_gt, above.not_gt]

/-- One digit after the integer quotient stands in for the rest. -/
private theorem level_guardedQuotient (first : a.isZero = false) (second : b.isZero = false) (shift : Nat)
    (broken : (a.mantissa * 10 ^ shift).tmod b.mantissa ≠ 0) :
    Level (10 ^ (a.exponent - b.exponent - shift)) (a.toRat / b.toRat)
      (normal ((a.mantissa * 10 ^ shift).tdiv b.mantissa * 10 + if a.isNegative == b.isNegative then 1 else -1)
        (a.exponent - b.exponent - shift - 1)).toRat := by
  have divisor : b.mantissa ≠ 0 := by simpa [isZero] using second
  have sign : ((a.mantissa * 10 ^ shift).tmod b.mantissa).sign = a.mantissa.sign := by
    have scaled : (10 ^ shift : ℤ).sign = 1 := Int.sign_eq_one_of_pos (by positivity)
    rw [Int.sign_tmod, if_neg (mt Int.tmod_eq_zero_of_dvd broken), Int.sign_mul, scaled, mul_one]
  have size : ((a.mantissa * 10 ^ shift).tmod b.mantissa).natAbs < b.mantissa.natAbs := by
    rw [Int.natAbs_tmod]
    exact Nat.mod_lt _ (by omega)
  rw [toRat_div a second shift, toRat_normal]
  generalize a.exponent - b.exponent - shift = place
  generalize (a.mantissa * 10 ^ shift).tmod b.mantissa = rest at sign size
  generalize (a.mantissa * 10 ^ shift).tdiv b.mantissa = whole
  have unit : (0 : ℚ) < 10 ^ place := by positivity
  have next : (0 : ℚ) < 10 ^ (place - 1) := by positivity
  have tenth : (10 : ℚ) ^ place = 10 * 10 ^ (place - 1) := by
    rw [← zpow_one_add₀ (by norm_num), add_sub_cancel]
  have small : |(rest / b.mantissa : ℚ) * 10 ^ place| < 10 ^ place := by
    rw [abs_mul, abs_of_pos unit, abs_div]
    apply mul_lt_of_lt_one_left unit
    rw [div_lt_one (by positivity), ← Int.cast_abs, ← Int.cast_abs, Int.abs_eq_natAbs, Int.abs_eq_natAbs]
    exact_mod_cast size
  rcases rest_direction first second sign with ⟨up, same⟩ | ⟨down, other⟩
  · have standIn : |(10 : ℚ) ^ (place - 1)| < 10 ^ place := by
      rw [abs_of_pos next, tenth]
      linarith
    have level := Level.add_of_small whole small standIn (.inl ⟨mul_pos up unit, next⟩)
    rw [same, if_pos rfl]
    convert level using 1
    push_cast
    rw [tenth]
    ring
  · have standIn : |-(10 : ℚ) ^ (place - 1)| < 10 ^ place := by
      rw [abs_neg, abs_of_pos next, tenth]
      linarith
    have level := Level.add_of_small whole small standIn
      (.inr ⟨mul_neg_of_neg_of_pos down unit, neg_neg_of_pos next⟩)
    rw [other, if_neg (by decide)]
    convert level using 1
    push_cast
    rw [tenth]
    ring

private theorem significant_guardedQuotient (first : a.isZero = false) (second : b.isZero = false) (precision : Nat)
    (mode : Rounding) :
    mode.significant precision (a.guardedQuotient b precision).toRat =
      mode.significant precision (a.toRat / b.toRat) := by
  simp only [guardedQuotient]
  generalize length : max precision 1 + 2 + b.digits - a.digits = shift
  have power : Int.pow 10 shift = 10 ^ shift := rfl
  rw [power]
  split
  next exact =>
    rw [toRat_normal, toRat_div a second shift, exact, Int.cast_zero, zero_div, zero_mul, add_zero]
  next broken =>
    have finer : a.exponent - b.exponent - shift < place precision (a.toRat / b.toRat) := by
      have low := (abs_quotient_bounds first second).1
      have positive := (zpow_pos (by norm_num) _).trans_le low
      have leading := (Int.zpow_le_iff_le_log (b := 10) (by decide) positive).mp (by exact_mod_cast low)
      simp only [adjusted, first, second, Bool.false_eq_true, if_false] at leading
      unfold place
      omega
    exact (((level_guardedQuotient first second shift broken).coarsen_half finer).significant_eq mode).symm

/-- Operands whose leading digits stand that far apart have no quotient within range, however it is rounded. -/
private theorem not_within_quotient (first : a.isZero = false) (second : b.isZero = false)
    (far : maxExponent + 1 < (a.adjusted - b.adjusted).natAbs) :
    ¬Within (mode.significant precision (a.toRat / b.toRat)) := by
  obtain ⟨low, high⟩ := abs_quotient_bounds first second
  have lower := zpow_le_abs_significant mode precision low
  have upper := abs_significant_le_zpow mode precision high
  have unit : (0 : ℚ) < 10 ^ (a.adjusted - b.adjusted - 1) := by positivity
  rcases le_or_gt 0 (a.adjusted - b.adjusted) with above | below
  · exact not_within_of_high lower (by omega)
  · exact not_within_of_low (abs_pos.mp (unit.trans_le lower)) upper (by omega)

theorem gives_div (nonzero : b.isZero = false) (precision : Nat) (mode : Rounding) :
    Gives .overflow (mode.significant precision (a.toRat / b.toRat)) (a.div b precision mode) := by
  unfold div
  rw [if_neg (by simp [nonzero])]
  split_ifs with nothing far
  · rw [toRat_eq_zero_iff.mpr nothing, zero_div, significant_zero]
    exact gives_zero
  · have first : a.isZero = false := by simpa using nothing
    exact gives_error_iff.mpr (not_within_quotient first nonzero far)
  · have first : a.isZero = false := by simpa using nothing
    rw [← significant_guardedQuotient first nonzero]
    exact gives_rounded (normal_guardedQuotient ..) precision mode

/-- A number within range is given as a decimal and not refused. -/
theorem Gives.eq_error_iff {ε : Type} {refusal : ε} {value : ℚ} {outcome : Except ε Decimal}
    (given : Gives refusal value outcome) : outcome = .error refusal ↔ ¬Within value := by
  constructor
  · rintro rfl
    exact gives_error_iff.mp given
  · exact given.beyond

private theorem div_eq_divisionByZero_iff : a.div b precision mode = .error .divisionByZero ↔ b.isZero = true := by
  constructor
  · intro failed
    rcases div_eq_error failed with overflow | ⟨-, nothing⟩
    · cases overflow
    · exact nothing
  · intro nothing
    rw [div, if_pos nothing]

/-- Zero divides nothing, and the quotient by anything else is rounded once, or refused where the rounded quotient is
out of range. Operands that are refused before they are divided stand too far apart for any rounding, and the digit
after a quotient that does not come out is as good as all the digits that would follow. -/
theorem quotient_rounded_once (a b : Decimal) (precision : Nat) (mode : Rounding) :
    (a.div b precision mode = .error .divisionByZero ↔ b.isZero = true) ∧
      (b.isZero = false →
        Gives .overflow (mode.significant precision (a.toRat / b.toRat)) (a.div b precision mode) ∧
        (a.div b precision mode = .error .overflow ↔ ¬Within (mode.significant precision (a.toRat / b.toRat)))) ∧
      (a.isZero = false → b.isZero = false →
        (maxExponent + 1 < (a.adjusted - b.adjusted).natAbs →
          ¬Within (mode.significant precision (a.toRat / b.toRat))) ∧
        mode.significant precision (a.guardedQuotient b precision).toRat =
          mode.significant precision (a.toRat / b.toRat)) := by
  refine ⟨div_eq_divisionByZero_iff, fun nonzero => ?_, fun first second => ?_⟩
  · have given : Gives .overflow _ (a.div b precision mode) := gives_div nonzero precision mode
    exact ⟨given, given.eq_error_iff⟩
  · exact ⟨not_within_quotient first second, significant_guardedQuotient first second precision mode⟩

/-- The rest of a division pushes the quotient off the tie between two and three millions, to the lower side. -/
theorem quotient_rounded_once_off_tie :
    isZero ⟨7500001, 0⟩ = false ∧ isZero ⟨-3, 0⟩ = false ∧ div ⟨7500001, 0⟩ ⟨-3, 0⟩ 1 .halfEven = .ok ⟨-3, 6⟩ ∧
      Gives .overflow (Rounding.halfEven.significant 1 (toRat ⟨7500001, 0⟩ / toRat ⟨-3, 0⟩))
        (div ⟨7500001, 0⟩ ⟨-3, 0⟩ 1 .halfEven) ∧
      Rounding.halfEven.significant 1 (guardedQuotient ⟨7500001, 0⟩ ⟨-3, 0⟩ 1).toRat =
        Rounding.halfEven.significant 1 (toRat ⟨7500001, 0⟩ / toRat ⟨-3, 0⟩) := by
  obtain ⟨-, quotient, standIn⟩ := quotient_rounded_once ⟨7500001, 0⟩ ⟨-3, 0⟩ 1 .halfEven
  exact ⟨rfl, rfl, by decide +kernel, (quotient rfl).1, (standIn rfl rfl).2⟩

end Dialogue.Decimal
