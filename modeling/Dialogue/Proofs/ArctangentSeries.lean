import Dialogue.Decimal.Pi
import Mathlib.Algebra.BigOperators.Intervals
import Mathlib.Algebra.Order.Floor.Semifield
import Mathlib.Algebra.Order.BigOperators.Group.Finset
import Mathlib.Analysis.SpecialFunctions.Complex.Arctan
import Mathlib.Tactic.Linarith

/-! The arctangent series in fixed point. Its loop ends once the power is used up, every term of it is short of the
real one by less than a unit, and what the series leaves out is less than a unit again. -/

namespace Dialogue.Decimal

open Finset

/-- What the loop over a series has at hand between two terms. -/
structure Series where
  power : Nat
  divisor : Nat
  sum : Int
  subtract : Bool

namespace Series

def start (x unity : Nat) : Series := ⟨unity / x, 1, (unity / x : Nat), true⟩

/-- One more term, which is added or taken away in turn. -/
def next (square : Nat) (series : Series) : Series :=
  let term : Int := (series.power / square / (series.divisor + 2) : Nat)
  { power := series.power / square
    divisor := series.divisor + 2
    sum := if series.subtract then series.sum - term else series.sum + term
    subtract := !series.subtract }

/-- The loop goes on for so many rounds until no power is left, and then it has the sum. -/
inductive Ends (square : Nat) : Series → Nat → Int → Prop where
  | spent {series : Series} (none : series.power / square = 0) : Ends square series 0 series.sum
  | round {series : Series} {rounds : Nat} {sum : Int} (left : series.power / square ≠ 0)
      (later : Ends square (series.next square) rounds sum) : Ends square series (rounds + 1) sum

end Series

variable {square power x unity terms : Nat}

theorem arctanTail_of_spent (spent : power / square = 0) (divisor : Nat) : arctanTail square power divisor = 0 := by
  unfold arctanTail
  rw [dif_pos]
  rcases Nat.div_eq_zero_iff.mp spent with zero | small <;> omega

/-- Once the power is used up, further rounds change nothing. -/
private theorem arctanTail_step (large : 2 ≤ square) (power divisor : Nat) :
    arctanTail square power divisor =
      -((power / square / (divisor + 2) : Nat) : Int) - arctanTail square (power / square) (divisor + 2) := by
  by_cases spent : power / square = 0
  · simp [spent, arctanTail_of_spent]
  · conv_lhs => unfold arctanTail
    have left : ¬(power < square ∨ square < 2) := by
      rintro (small | tiny)
      · exact spent (Nat.div_eq_of_lt small)
      · omega
    rw [dif_neg left]

/-- Each round takes one factor from the power, and the sum that is reached stays what it was going to be. -/
theorem Series.ends_arctanTail (large : 2 ≤ square) (series : Series) (left : series.power ≠ 0) :
    ∃ rounds, square ^ rounds ≤ series.power ∧
      Ends square series rounds (series.sum + if series.subtract then arctanTail square series.power series.divisor
        else -arctanTail square series.power series.divisor) := by
  induction size : series.power using Nat.strongRecOn generalizing series with
  | ind power ih =>
    subst size
    by_cases spent : series.power / square = 0
    · refine ⟨0, Nat.pos_of_ne_zero left, ?_⟩
      have done := Ends.spent spent
      simpa [arctanTail_of_spent spent] using done
    · have smaller : series.power / square < series.power := Nat.div_lt_self (Nat.pos_of_ne_zero left) large
      obtain ⟨rounds, bound, later⟩ := ih _ smaller (series.next square) spent rfl
      refine ⟨rounds + 1, ?_, ?_⟩
      · rw [pow_succ]
        exact (Nat.le_div_iff_mul_le (by omega)).mp bound
      · convert Ends.round spent later using 1
        rw [arctanTail_step large]
        cases sign : series.subtract <;> simp only [next, sign] <;> simp <;> ring

private theorem arctanTail_eq_sum (large : 2 ≤ square) (divisor : Nat) (enough : power < square ^ (terms + 1)) :
    arctanTail square power divisor =
      ∑ k ∈ range terms, (-1) ^ (k + 1) * ((power / square ^ (k + 1) / (divisor + 2 * (k + 1)) : Nat) : Int) := by
  induction terms generalizing power divisor with
  | zero =>
    rw [arctanTail_of_spent (Nat.div_eq_of_lt (by simpa using enough)), range_zero, sum_empty]
  | succ terms ih =>
    have fewer : power / square < square ^ (terms + 1) := by
      rw [Nat.div_lt_iff_lt_mul (by omega), ← pow_succ]
      exact enough
    rw [arctanTail_step large, ih (divisor + 2) fewer, sum_range_succ', sub_eq_neg_add, ← sum_neg_distrib]
    congr 1
    · apply sum_congr rfl
      intro k _
      have odd : divisor + 2 + 2 * (k + 1) = divisor + 2 * (k + 1 + 1) := by ring
      rw [Nat.div_div_eq_div_mul power square, ← pow_succ', odd]
      ring
    · simp

/-- The truncated series, term by term. -/
theorem arctanInverse_eq_sum (large : 2 ≤ x) (enough : unity < x ^ (2 * terms + 3)) :
    arctanInverse x unity =
      ∑ k ∈ range (terms + 1), (-1) ^ k * ((unity / (x ^ (2 * k + 1) * (2 * k + 1)) : Nat) : Int) := by
  have square : 2 ≤ x * x := by nlinarith
  have fewer : unity / x < (x * x) ^ (terms + 1) := by
    rw [Nat.div_lt_iff_lt_mul (by omega), ← pow_two, ← pow_mul, ← pow_succ]
    exact enough
  rw [arctanInverse, arctanTail_eq_sum square 1 fewer, sum_range_succ', add_comm]
  congr 1
  · apply sum_congr rfl
    intro k _
    rw [Nat.div_div_eq_div_mul, Nat.div_div_eq_div_mul, ← pow_two, ← pow_mul, ← mul_assoc, ← pow_succ', add_comm 1]
  · simp

theorem abs_natCast_div_sub_le (m n : Nat) : |((m / n : Nat) : ℝ) - m / n| ≤ 1 := by
  rw [← Nat.floor_div_eq_div (K := ℝ), abs_le]
  have below := Nat.floor_le (by positivity : (0 : ℝ) ≤ m / n)
  have above := Nat.lt_floor_add_one ((m : ℝ) / n)
  constructor <;> linarith

/-- The terms of the series fall, and the part that is left out is no larger than the first term of it. -/
theorem abs_arctan_sub_sum_le {y : ℝ} (positive : 0 < y) (small : y < 1) (terms : Nat) :
    |Real.arctan y - ∑ k ∈ range terms, (-1) ^ k * (y ^ (2 * k + 1) / (2 * k + 1 : Nat))| ≤
      y ^ (2 * terms + 1) / (2 * terms + 1 : Nat) := by
  have norm : ‖y‖ < 1 := by rwa [Real.norm_of_nonneg positive.le]
  have series := Real.hasSum_arctan norm
  simp only [mul_div_assoc] at series
  have falling : Antitone fun k : Nat => y ^ (2 * k + 1) / (2 * k + 1 : Nat) := by
    intro j k order
    have power : y ^ (2 * k + 1) ≤ y ^ (2 * j + 1) := pow_le_pow_of_le_one positive.le small.le (by omega)
    have divisor : ((2 * j + 1 : Nat) : ℝ) ≤ (2 * k + 1 : Nat) := by exact_mod_cast (by omega)
    exact div_le_div₀ (by positivity) power (by positivity) divisor
  have summable : Summable fun k : Nat => y ^ (2 * k + 1) / ((2 * k + 1 : Nat) : ℝ) := by
    refine series.summable.abs.congr fun k => ?_
    rw [abs_mul, abs_pow, abs_neg, abs_one, one_pow, one_mul, abs_of_nonneg (by positivity)]
  rw [← series.tsum_eq]
  exact alternating_series_error_bound _ falling summable terms

end Dialogue.Decimal
