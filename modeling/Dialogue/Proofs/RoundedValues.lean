import Dialogue.Proofs.DecimalValues
import Mathlib.Data.Int.Log
import Mathlib.Data.Rat.Floor
import Mathlib.Tactic.Linarith

/-! Correct rounding, said of rational numbers alone. A number is measured in units of the last digit that is
kept and goes to the whole number that the mode prescribes; decimals are rounded just so. Numbers that no
half of a unit tells apart are rounded alike. -/

namespace Dialogue

namespace Rounding

/-- The nearest whole number, or the one given where two are equally near. -/
def nearest (x : ℚ) (tie : ℤ) : ℤ :=
  match compare (Int.fract x) (1 / 2) with
  | .lt => ⌊x⌋
  | .eq => tie
  | .gt => ⌈x⌉

def inward (x : ℚ) : ℤ := if 0 ≤ x then ⌊x⌋ else ⌈x⌉

def outward (x : ℚ) : ℤ := if 0 ≤ x then ⌈x⌉ else ⌊x⌋

/-- The neighbour that the mode prefers. -/
def preferred (mode : Rounding) (x : ℚ) : ℤ :=
  match mode with
  | halfEven => if Even ⌊x⌋ then ⌊x⌋ else ⌈x⌉
  | halfUp | awayFromZero => outward x
  | halfDown | towardZero => inward x
  | ceiling => ⌈x⌉
  | floor => ⌊x⌋

/-- Whether the mode has a preference between equally near neighbours only. -/
def isNearest : Rounding → Bool
  | halfEven | halfUp | halfDown => true
  | towardZero | awayFromZero | ceiling | floor => false

/-- The whole number that the mode prescribes for a number. -/
def whole (mode : Rounding) (x : ℚ) : ℤ :=
  if mode.isNearest then nearest x (mode.preferred x) else mode.preferred x

/-- The mode that does to a number what this one does to its opposite. -/
def mirrored : Rounding → Rounding
  | ceiling => floor
  | floor => ceiling
  | mode => mode

/-- The power of ten of the last digit that is kept of a number; a precision of zero counts as one. -/
def place (precision : Nat) (x : ℚ) : ℤ := Int.log 10 |x| + 1 - (max precision 1 : Nat)

/-- The number with the given number of significant digits that the mode prescribes. -/
def significant (mode : Rounding) (precision : Nat) (x : ℚ) : ℚ :=
  mode.whole (x / 10 ^ place precision x) * 10 ^ place precision x

variable {mode : Rounding} {precision : Nat} {x y : ℚ}

/-- How two values compare is known from which of them is no larger than the other. -/
theorem compare_congr {α β : Type} [LinearOrder α] [LinearOrder β] {a b : α} {c d : β} (below : a ≤ b ↔ c ≤ d)
    (above : b ≤ a ↔ d ≤ c) : compare a b = compare c d := by
  simp only [LinearOrder.compare_eq_compareOfLessAndEq, compareOfLessAndEq, ← not_le, le_antisymm_iff, below, above]

private theorem compare_one_sub (y : ℚ) : compare (1 - y) (1 / 2) = (compare y (1 / 2)).swap := by
  rw [← Std.OrientedCmp.eq_swap]
  apply compare_congr <;> constructor <;> intro <;> linarith

@[simp] theorem nearest_intCast (n tie : ℤ) : nearest n tie = n := by
  have below : compare (0 : ℚ) (1 / 2) = .lt := compare_lt_iff_lt.mpr (by norm_num)
  simp [nearest, -one_div, below]

private theorem nearest_neg {x : ℚ} (broken : Int.fract x ≠ 0) (tie : ℤ) : nearest (-x) (-tie) = -nearest x tie := by
  unfold nearest
  rw [Int.fract_neg broken, compare_one_sub, Int.floor_neg, Int.ceil_neg]
  cases compare (Int.fract x) (1 / 2) <;> rfl

@[simp] theorem preferred_intCast (mode : Rounding) (n : ℤ) : mode.preferred n = n := by
  cases mode <;> simp [preferred, inward, outward]

@[simp] theorem whole_intCast (mode : Rounding) (n : ℤ) : mode.whole n = n := by
  simp [whole]

/-- What is not whole lies between two whole numbers that follow each other. -/
theorem ceil_eq_floor_add_one (broken : Int.fract x ≠ 0) : ⌈x⌉ = ⌊x⌋ + 1 := by
  have positive := (Int.fract_nonneg x).lt_of_ne' broken
  have below := Int.lt_floor_add_one x
  rw [Int.ceil_eq_iff]
  push_cast
  exact ⟨by linarith [Int.self_sub_floor x], below.le⟩

private theorem preferred_neg (mode : Rounding) (broken : Int.fract x ≠ 0) :
    mode.preferred (-x) = -mode.mirrored.preferred x := by
  have nonzero : x ≠ 0 := fun zero => broken (by simp [zero])
  have sign : (0 ≤ -x) ↔ ¬0 ≤ x := by
    rw [Left.nonneg_neg_iff, not_le, nonzero.le_iff_lt]
  have inner : inward (-x) = -inward x := by
    simp only [inward, sign, Int.floor_neg, Int.ceil_neg]
    split_ifs <;> rfl
  have outer : outward (-x) = -outward x := by
    simp only [outward, sign, Int.floor_neg, Int.ceil_neg]
    split_ifs <;> rfl
  cases mode with
  | halfDown | towardZero => exact inner
  | halfUp | awayFromZero => exact outer
  | ceiling => exact Int.ceil_neg
  | floor => exact Int.floor_neg
  | halfEven =>
    simp only [preferred, mirrored, Int.floor_neg, Int.ceil_neg, ceil_eq_floor_add_one broken, even_neg,
      Int.even_add_one]
    split_ifs <;> rfl

@[simp] theorem isNearest_mirrored (mode : Rounding) : mode.mirrored.isNearest = mode.isNearest := by
  cases mode <;> rfl

theorem whole_neg (mode : Rounding) (x : ℚ) : mode.whole (-x) = -mode.mirrored.whole x := by
  by_cases integral : Int.fract x = 0
  · obtain ⟨n, rfl⟩ := Int.fract_eq_zero_iff.mp integral
    rw [whole_intCast, ← Int.cast_neg, whole_intCast]
  · simp only [whole, preferred_neg mode integral, nearest_neg integral, isNearest_mirrored]
    split_ifs <;> rfl

/-- A magnitude that is not whole goes to the neighbour that the order of its fraction and one half decides. -/
private theorem whole_of_floor_eq (mode : Rounding) {lower : Nat} (floor : ⌊x⌋ = lower) (broken : Int.fract x ≠ 0) :
    mode.whole x =
      (lower + if mode.goesAway false (lower % 2 == 0) (compare (Int.fract x) (1 / 2)) then 1 else 0 : Nat) := by
  have next := ceil_eq_floor_add_one broken
  have least : 0 ≤ x := Int.floor_nonneg.mp (floor ▸ Int.natCast_nonneg lower)
  simp only [whole, isNearest, preferred, nearest, inward, outward, next, floor, least, if_true, Int.even_coe_nat,
    Nat.even_iff]
  generalize compare (Int.fract x) (1 / 2) = half
  cases mode <;> cases half
  all_goals simp [goesAway]
  all_goals split_ifs <;> simp_all

/-- A magnitude is rounded to the quotient of its digits or to the natural after it. -/
private theorem quotient_natCast (mode : Rounding) (value : Nat) {unit : Nat} (positive : 0 < unit) :
    mode.quotient value unit = mode.whole (value / unit) := by
  have divisor : (0 : ℚ) < unit := by exact_mod_cast positive
  have lower : ⌊(value / unit : ℚ)⌋ = (value / unit : Nat) := Rat.floor_intCast_div_natCast value unit
  have rest : Int.fract (value / unit : ℚ) = (value % unit : Nat) / unit := Int.fract_div_natCast_eq_div_natCast_mod
  by_cases none : value % unit = 0
  · have integral : (value / unit : ℚ) = ((value / unit : Nat) : ℤ) := by
      rw [← lower, ← sub_eq_zero, Int.self_sub_floor, rest, none, Nat.cast_zero, zero_div]
    rw [integral, whole_intCast]
    rcases Nat.eq_zero_or_pos value with rfl | counted
    · simp [quotient]
    · simp [quotient, none, Int.sign_natCast_of_ne_zero counted.ne']
  · have broken : Int.fract (value / unit : ℚ) ≠ 0 := by
      rw [rest]
      positivity
    have half : compare (Int.fract (value / unit : ℚ)) (1 / 2) = compare (2 * (value % unit)) unit := by
      rw [rest]
      apply compare_congr
      · rw [div_le_div_iff₀ divisor two_pos]
        norm_cast
        omega
      · rw [div_le_div_iff₀ two_pos divisor]
        norm_cast
        omega
    have counted : value ≠ 0 := fun zero => none (by simp [zero])
    have unsigned : ¬(value : ℤ) < 0 := by omega
    rw [whole_of_floor_eq mode lower broken, half]
    simp [quotient, none, Int.sign_natCast_of_ne_zero counted, unsigned]

private theorem quotient_neg (mode : Rounding) (value : ℤ) (unit : Nat) :
    mode.quotient (-value) unit = -mode.mirrored.quotient value unit := by
  rcases eq_or_ne value 0 with rfl | nonzero
  · simp [quotient]
  · have sign : decide (-value < 0) = !decide (value < 0) := by
      rw [← decide_not, decide_eq_decide]
      omega
    have away (even : Bool) (half : Ordering) :
        mode.goesAway (!decide (value < 0)) even half = mode.mirrored.goesAway (decide (value < 0)) even half := by
      cases mode <;> simp [goesAway, mirrored]
    simp only [quotient, Int.sign_neg, Int.natAbs_neg, sign, away, Int.neg_mul]

private theorem quotient_eq_whole (mode : Rounding) (value : ℤ) {unit : Nat} (positive : 0 < unit) :
    mode.quotient value unit = mode.whole (value / unit) := by
  obtain ⟨magnitude, rfl | rfl⟩ := value.eq_nat_or_neg
  · rw [quotient_natCast _ _ positive, Int.cast_natCast]
  · rw [quotient_neg, quotient_natCast _ _ positive, Int.cast_neg, neg_div, whole_neg, Int.cast_natCast]

theorem log_eq_of_bounds {size : ℚ} {k : ℤ} (low : (10 : ℚ) ^ k ≤ size) (high : size < 10 ^ (k + 1)) :
    Int.log 10 size = k := by
  have positive : 0 < size := lt_of_lt_of_le (by positivity) low
  have least := (Int.zpow_le_iff_le_log (b := 10) (by decide) positive).mp (by exact_mod_cast low)
  have most := (Int.lt_zpow_iff_log_lt (b := 10) (by decide) positive).mp (by exact_mod_cast high)
  omega

@[simp] theorem significant_zero (mode : Rounding) (precision : Nat) : mode.significant precision 0 = 0 := by
  have zero : mode.whole 0 = 0 := by exact_mod_cast whole_intCast mode 0
  simp [significant, zero]

/-- A number with no digits below the last one that is kept stays as it is. -/
theorem significant_eq_self {n k : ℤ} (multiple : x = n * 10 ^ k) (coarse : place precision x ≤ k) :
    mode.significant precision x = x := by
  obtain ⟨spare, shift⟩ := Int.le.dest coarse
  have unit : (10 : ℚ) ^ place precision x ≠ 0 := by positivity
  have scaled : x / 10 ^ place precision x = (n * 10 ^ spare : ℤ) := by
    rw [div_eq_iff unit]
    conv_lhs => rw [multiple, ← shift, zpow_add₀ (by norm_num), zpow_natCast]
    push_cast
    ring
  rw [significant, scaled, whole_intCast, ← scaled, div_mul_cancel₀ _ unit]

/-- No multiple of the unit lies between the two numbers or is just one of them. -/
def Level (unit x y : ℚ) : Prop := ∀ n : ℤ, (n * unit ≤ x ↔ n * unit ≤ y) ∧ (x ≤ n * unit ↔ y ≤ n * unit)

/-- Inside of one cell of the grid nothing is told apart. -/
theorem Level.of_inside {unit : ℚ} {n : ℤ} (positive : 0 < unit) (left : n * unit < x ∧ x < (n + 1) * unit)
    (right : n * unit < y ∧ y < (n + 1) * unit) : Level unit x y := by
  have order {z : ℚ} (inside : n * unit < z ∧ z < (n + 1) * unit) (m : ℤ) :
      (m * unit ≤ z ↔ m ≤ n) ∧ (z ≤ m * unit ↔ n < m) := by
    rcases le_or_gt m n with below | above
    · have grid : (m : ℚ) * unit ≤ n * unit := by gcongr
      exact ⟨iff_of_true (grid.trans inside.1.le) below, iff_of_false (by linarith) below.not_gt⟩
    · have grid : ((n : ℚ) + 1) * unit ≤ m * unit := by
        gcongr
        exact_mod_cast above
      exact ⟨iff_of_false (by linarith) above.not_ge, iff_of_true (by linarith) above⟩
  intro m
  rw [(order left m).1, (order left m).2, (order right m).1, (order right m).2]
  exact ⟨Iff.rfl, Iff.rfl⟩

/-- Less than a unit is added to a multiple of it, in the same direction. -/
theorem Level.add_of_small {unit : ℚ} (n : ℤ) (small : |x| < unit) (other : |y| < unit)
    (direction : 0 < x ∧ 0 < y ∨ x < 0 ∧ y < 0) : Level unit (n * unit + x) (n * unit + y) := by
  have positive : 0 < unit := (abs_nonneg x).trans_lt small
  obtain ⟨belowX, aboveX⟩ := abs_lt.mp small
  obtain ⟨belowY, aboveY⟩ := abs_lt.mp other
  rcases direction with ⟨upX, upY⟩ | ⟨downX, downY⟩
  · have cell {z : ℚ} (up : 0 < z) (most : z < unit) : n * unit < n * unit + z ∧ n * unit + z < (n + 1) * unit := by
      constructor <;> linarith
    exact .of_inside positive (cell upX aboveX) (cell upY aboveY)
  · have cell {z : ℚ} (down : z < 0) (least : -unit < z) :
        (n - 1 : ℤ) * unit < n * unit + z ∧ n * unit + z < ((n - 1 : ℤ) + 1) * unit := by
      push_cast
      constructor <;> linarith
    exact .of_inside positive (cell downX belowX) (cell downY belowY)

theorem Level.coarsen {unit : ℚ} (level : Level unit x y) (factor : ℤ) : Level (factor * unit) x y := by
  intro n
  have := level (n * factor)
  rwa [Int.cast_mul, mul_assoc] at this

theorem Level.scale {unit size : ℚ} (level : Level unit x y) (positive : 0 < size) :
    Level (unit / size) (x / size) (y / size) := by
  intro n
  have := level n
  rw [← mul_div_assoc, div_le_div_iff_of_pos_right positive, div_le_div_iff_of_pos_right positive,
    div_le_div_iff_of_pos_right positive, div_le_div_iff_of_pos_right positive]
  exact this

theorem Level.le_abs_iff {unit : ℚ} (level : Level unit x y) (n : ℤ) : n * unit ≤ |x| ↔ n * unit ≤ |y| := by
  have opposite := (level (-n)).2
  rw [Int.cast_neg, neg_mul, le_neg, @le_neg _ _ _ _ _ y] at opposite
  rw [le_abs, le_abs, (level n).1, opposite]

/-- What a mode prefers depends on the neighbours and on the sign. -/
theorem preferred_congr (floor : ⌊x⌋ = ⌊y⌋) (ceil : ⌈x⌉ = ⌈y⌉) (sign : 0 ≤ x ↔ 0 ≤ y) (mode : Rounding) :
    mode.preferred x = mode.preferred y := by
  cases mode <;> simp only [preferred, inward, outward, floor, ceil, sign]

/-- Halves decide what a number is rounded to. -/
theorem Level.whole_eq (level : Level (1 / 2) x y) (mode : Rounding) : mode.whole x = mode.whole y := by
  have integral (n : ℤ) : ((n : ℚ) ≤ x ↔ (n : ℚ) ≤ y) ∧ (x ≤ n ↔ y ≤ n) := by
    have := level (n * 2)
    rwa [Int.cast_mul, Int.cast_ofNat, mul_assoc, mul_one_div_cancel two_ne_zero, mul_one] at this
  have lower : ⌊x⌋ = ⌊y⌋ := eq_of_forall_le_iff fun n => by
    rw [Int.le_floor, Int.le_floor, (integral n).1]
  have upper : ⌈x⌉ = ⌈y⌉ := eq_of_forall_ge_iff fun n => by
    rw [Int.ceil_le, Int.ceil_le, (integral n).2]
  have sign : (0 ≤ x) ↔ 0 ≤ y := by
    exact_mod_cast (integral 0).1
  have half : compare (Int.fract x) (1 / 2) = compare (Int.fract y) (1 / 2) := by
    obtain ⟨above, below⟩ := level (2 * ⌊x⌋ + 1)
    have middle : ((2 * ⌊x⌋ + 1 : ℤ) : ℚ) * (1 / 2) = 1 / 2 + ⌊x⌋ := by
      push_cast
      ring
    rw [middle, ← sub_le_iff_le_add, ← sub_le_iff_le_add (a := y)] at below
    rw [middle, ← le_sub_iff_add_le, ← le_sub_iff_add_le (c := y)] at above
    rw [Int.fract, Int.fract, ← lower]
    exact compare_congr below above
  simp only [whole, nearest, preferred_congr lower upper sign mode, lower, upper, half]

/-- Halves of a power of ten are multiples of the powers below it. -/
theorem Level.coarsen_half {j k : ℤ} (level : Level (10 ^ k) x y) (finer : k < j) : Level (10 ^ j / 2) x y := by
  obtain ⟨zeros, shift⟩ := Int.le.dest (Int.le_sub_one_of_lt finer)
  have half : ((5 * 10 ^ zeros : ℤ) : ℚ) * 10 ^ k = 10 ^ j / 2 := by
    rw [eq_add_of_sub_eq' shift.symm, zpow_add₀ (by norm_num), zpow_add₀ (by norm_num), zpow_natCast]
    push_cast
    ring
  rw [← half]
  exact level.coarsen (5 * 10 ^ zeros)

theorem Level.zpow_le_abs_iff {i j : ℤ} (level : Level (10 ^ j / 2) x y) (coarse : j ≤ i) :
    (10 : ℚ) ^ i ≤ |x| ↔ (10 : ℚ) ^ i ≤ |y| := by
  obtain ⟨zeros, shift⟩ := Int.le.dest coarse
  have multiple : (10 : ℚ) ^ i = (2 * 10 ^ zeros : ℤ) * (10 ^ j / 2) := by
    rw [← shift, zpow_add₀ (by norm_num), zpow_natCast]
    push_cast
    ring
  rw [multiple]
  exact level.le_abs_iff _

/-- Numbers that no half of the last digit tells apart are rounded alike. -/
theorem Level.significant_eq (level : Level (10 ^ place precision x / 2) x y) (mode : Rounding) :
    mode.significant precision x = mode.significant precision y := by
  rcases eq_or_ne x 0 with rfl | nonzero
  · have zero := level 0
    simp only [Int.cast_zero, zero_mul, le_refl, true_iff] at zero
    rw [le_antisymm zero.2 zero.1]
  · have near : place precision x ≤ Int.log 10 |x| := by
      unfold place
      omega
    have low := (level.zpow_le_abs_iff near).mp (Int.zpow_log_le_self (by decide) (abs_pos.mpr nonzero))
    have high := (not_congr (level.zpow_le_abs_iff (Int.le_add_one near))).mp
      (not_le.mpr (Int.lt_zpow_succ_log_self (by decide) |x|))
    have same : place precision y = place precision x := by
      unfold place
      rw [log_eq_of_bounds low (not_le.mp high)]
    have unit : (0 : ℚ) < 10 ^ place precision x := by positivity
    have halves := level.scale unit
    rw [div_right_comm, div_self unit.ne'] at halves
    rw [significant, significant, same, halves.whole_eq]

private theorem place_neg (precision : Nat) (x : ℚ) : place precision (-x) = place precision x := by
  rw [place, place, abs_neg]

theorem significant_neg (mode : Rounding) (precision : Nat) (x : ℚ) :
    mode.significant precision (-x) = -mode.mirrored.significant precision x := by
  rw [significant, significant, place_neg, neg_div, whole_neg, Int.cast_neg, neg_mul]

end Rounding

namespace Decimal

open Rounding

variable {d : Decimal} {precision : Nat} {mode : Rounding}

private theorem log_toRat (nonzero : d.isZero = false) : Int.log 10 |d.toRat| = d.adjusted := by
  obtain ⟨low, high⟩ := toRat_bounds nonzero
  exact log_eq_of_bounds low high

private theorem place_toRat (nonzero : d.isZero = false) :
    place precision d.toRat = d.exponent + (d.digits - (max precision 1 : Nat) : ℤ) := by
  rw [place, log_toRat nonzero, adjusted, nonzero]
  simp only [Bool.false_eq_true, if_false]
  ring

/-- A decimal is rounded as its number is. -/
theorem toRat_rounded (d : Decimal) (precision : Nat) (mode : Rounding) :
    (d.rounded precision mode).toRat = mode.significant precision d.toRat := by
  by_cases short : d.digits ≤ max precision 1
  · rw [rounded_of_digits_le short]
    cases nothing : d.isZero with
    | true => rw [toRat_eq_zero_iff.mpr nothing, significant_zero]
    | false =>
      have coarse : place precision d.toRat ≤ d.exponent := by
        rw [place_toRat nothing]
        omega
      exact (significant_eq_self rfl coarse).symm
  · have long := Nat.not_le.mp short
    have nonzero : d.isZero = false := by
      simpa [isZero] using mantissa_ne_zero_of_lt_digits long
    have dropped : place precision d.toRat = d.exponent + (d.digits - max precision 1 : Nat) := by
      rw [place_toRat nonzero, Nat.cast_sub long.le]
    have unit : (10 : ℚ) ^ d.exponent ≠ 0 := by positivity
    rw [rounded_of_lt_digits long, toRat_normal, quotient_eq_whole _ _ (by positivity), significant, dropped]
    congr 3
    rw [toRat, zpow_add₀ (by norm_num), mul_comm (10 ^ d.exponent), mul_div_mul_right _ _ unit, zpow_natCast]
    norm_cast

/-- The outcome is the decimal of the number where that is within range, and the refusal where it is not. -/
structure Gives {ε : Type} (refusal : ε) (value : ℚ) (outcome : Except ε Decimal) : Prop where
  within : Within value → ∃ result, outcome = .ok result ∧ result.Normal ∧ result.toRat = value
  beyond : ¬Within value → outcome = .error refusal

theorem Gives.toRat_eq {ε : Type} {refusal : ε} {value : ℚ} {outcome : Except ε Decimal}
    (given : Gives refusal value outcome) (found : outcome = .ok d) : d.toRat = value := by
  by_cases range : Within value
  · obtain ⟨result, same, -, held⟩ := given.within range
    cases found.symm.trans same
    exact held
  · cases found.symm.trans (given.beyond range)

private theorem gives_checked (written : d.Normal) : Gives .overflow d.toRat d.checked := by
  constructor
  · intro range
    exact ⟨d, checked_of_inRange (inRange_iff_toRat.mpr range), written, rfl⟩
  · intro far
    exact checked_of_not_inRange (mt inRange_iff_toRat.mp far)

/-- A decimal that is rounded and then checked gives its number, rounded once. -/
theorem gives_rounded (written : d.Normal) (precision : Nat) (mode : Rounding) :
    Gives .overflow (mode.significant precision d.toRat) (d.rounded precision mode).checked := by
  rw [← toRat_rounded]
  exact gives_checked (normal_rounded written precision mode)

end Decimal

end Dialogue
