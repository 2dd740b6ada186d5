import Dialogue.Proofs.DecimalForms
import Dialogue.Proofs.Results

/-! The magnitudes that rounding can reach. A rounding either leaves the leading digit where it is or
carries into the next power of ten, and it carries in one case only: all digits that stay are nines and
the mode moves away from zero. -/

namespace Dialogue

namespace Rounding

/-- Whether a value that is no multiple of the unit goes to the neighbour away from zero. -/
def movesAway (mode : Rounding) (value : Int) (unit : Nat) : Bool :=
  value.natAbs % unit ≠ 0 &&
    mode.goesAway (value < 0) (value.natAbs / unit % 2 == 0) (compare (2 * (value.natAbs % unit)) unit)

theorem natAbs_quotient (mode : Rounding) {value : Int} (nonzero : value ≠ 0) (unit : Nat) :
    (mode.quotient value unit).natAbs =
      value.natAbs / unit + if mode.movesAway value unit then 1 else 0 := by
  have sign : value.sign.natAbs = 1 := by
    rcases Int.lt_or_gt_of_ne nonzero with negative | positive
    · simp [Int.sign_eq_neg_one_of_neg negative]
    · simp [Int.sign_eq_one_of_pos positive]
  rw [quotient, Int.natAbs_mul, sign, one_mul, Int.natAbs_natCast]
  rfl

end Rounding

namespace Decimal

/-- Rounding to so many digits carries into a new leading digit. -/
structure Carries (d : Decimal) (precision : Nat) (mode : Rounding) : Prop where
  longer : max precision 1 < d.digits
  nines : d.mantissa.natAbs / 10 ^ (d.digits - max precision 1) = 10 ^ max precision 1 - 1
  away : mode.movesAway d.mantissa (10 ^ (d.digits - max precision 1)) = true

instance (d : Decimal) (precision : Nat) (mode : Rounding) : Decidable (d.Carries precision mode) :=
  decidable_of_iff (_ ∧ _ ∧ _)
    ⟨fun ⟨longer, nines, away⟩ => ⟨longer, nines, away⟩, fun carry => ⟨carry.1, carry.2, carry.3⟩⟩

variable {d : Decimal} {precision : Nat} {mode : Rounding}

theorem rounded_of_digits_le (short : d.digits ≤ max precision 1) : d.rounded precision mode = d := by
  simp [rounded, short]

theorem rounded_of_lt_digits (long : max precision 1 < d.digits) :
    d.rounded precision mode =
      normal (mode.quotient d.mantissa (10 ^ (d.digits - max precision 1)))
        (d.exponent + (d.digits - max precision 1 : Nat)) := by
  simp [rounded, Nat.not_le.mpr long]

theorem normal_rounded {d : Decimal} (written : d.Normal) (precision : Nat) (mode : Rounding) :
    (d.rounded precision mode).Normal := by
  by_cases short : d.digits ≤ max precision 1
  · rwa [rounded_of_digits_le short]
  · rw [rounded_of_lt_digits (Nat.not_le.mp short)]
    exact normal_is_normal ..

theorem mantissa_ne_zero_of_lt_digits (long : max precision 1 < d.digits) : d.mantissa ≠ 0 := by
  intro zero
  have : d.digits = 1 := by simp [digits, zero, Digits.count]
  omega

/-- The digits that a rounding keeps, before it moves to a neighbour. -/
private theorem count_kept (long : max precision 1 < d.digits) :
    Digits.count (d.mantissa.natAbs / 10 ^ (d.digits - max precision 1)) = max precision 1 := by
  rw [Digits.count_div_pow] <;> simp only [digits] at * <;> omega

private theorem kept_pos (long : max precision 1 < d.digits) :
    0 < d.mantissa.natAbs / 10 ^ (d.digits - max precision 1) := by
  have low := Digits.pow_le_of_pos (Int.natAbs_ne_zero.mpr (mantissa_ne_zero_of_lt_digits long))
  have unit : 10 ^ (d.digits - max precision 1) ≤ 10 ^ (d.digits - 1) :=
    Nat.pow_le_pow_right (by decide) (by omega)
  exact Nat.div_pos (unit.trans low) (Nat.pow_pos (by decide))

theorem quotient_ne_zero (long : max precision 1 < d.digits) :
    mode.quotient d.mantissa (10 ^ (d.digits - max precision 1)) ≠ 0 := by
  have natAbs := Rounding.natAbs_quotient mode (mantissa_ne_zero_of_lt_digits long)
    (10 ^ (d.digits - max precision 1))
  have positive := kept_pos long
  exact Int.natAbs_ne_zero.mp (by omega)

theorem count_quotient (long : max precision 1 < d.digits) :
    Digits.count (mode.quotient d.mantissa (10 ^ (d.digits - max precision 1))).natAbs =
      max precision 1 + if d.Carries precision mode then 1 else 0 := by
  have same := count_kept long
  have below := Digits.lt_pow_count (d.mantissa.natAbs / 10 ^ (d.digits - max precision 1))
  rw [same] at below
  rw [Rounding.natAbs_quotient _ (mantissa_ne_zero_of_lt_digits long)]
  split
  next away =>
    split
    next carry =>
      rw [carry.nines, Nat.sub_add_cancel (Nat.one_le_pow _ _ (by decide))]
      exact Digits.count_eq_of_bounds le_rfl (Nat.pow_lt_pow_succ (by decide))
    next stays =>
      have room : d.mantissa.natAbs / 10 ^ (d.digits - max precision 1) + 1 < 10 ^ max precision 1 :=
        lt_of_le_of_ne below fun full => stays ⟨long, Nat.eq_sub_of_add_eq full, away⟩
      apply le_antisymm (Digits.count_le_of_lt (by omega) room)
      exact same.ge.trans (Digits.count_mono (Nat.le_succ _))
  next stays =>
    rw [if_neg fun carry => stays carry.away]
    exact same

@[simp] theorem isZero_rounded : (d.rounded precision mode).isZero = d.isZero := by
  by_cases short : d.digits ≤ max precision 1
  · rw [rounded_of_digits_le short]
  · have long := Nat.not_le.mp short
    rw [rounded_of_lt_digits long, isZero_normal]
    simp [quotient_ne_zero long, isZero, mantissa_ne_zero_of_lt_digits long]

/-- Rounding moves the leading digit by the carry and by nothing else. -/
theorem adjusted_rounded (nonzero : d.isZero = false) :
    (d.rounded precision mode).adjusted = d.adjusted + if d.Carries precision mode then 1 else 0 := by
  by_cases short : d.digits ≤ max precision 1
  · rw [rounded_of_digits_le short, if_neg fun carry => by have := carry.longer; omega, Int.add_zero]
  · have long := Nat.not_le.mp short
    rw [rounded_of_lt_digits long, adjusted_normal (quotient_ne_zero long), count_quotient long]
    simp only [adjusted, nonzero]
    split <;> push_cast <;> omega

theorem digits_rounded_le : (d.rounded precision mode).digits ≤ max precision 1 := by
  by_cases short : d.digits ≤ max precision 1
  · rwa [rounded_of_digits_le short]
  · have long := Nat.not_le.mp short
    rw [rounded_of_lt_digits long]
    by_cases carry : d.Carries precision mode
    · have power : (mode.quotient d.mantissa (10 ^ (d.digits - max precision 1))).natAbs =
          10 ^ max precision 1 := by
        rw [Rounding.natAbs_quotient _ (mantissa_ne_zero_of_lt_digits long), carry.nines, if_pos carry.away,
          Nat.sub_add_cancel (Nat.one_le_pow _ _ (by decide))]
      rw [digits_normal_pow power]
      exact le_max_right ..
    · refine (digits_normal_le ..).trans ?_
      simp [count_quotient long, carry]

/-- What has been rounded once has no digits left to drop. -/
theorem rounded_rounded (again : Rounding) :
    (d.rounded precision mode).rounded precision again = d.rounded precision mode :=
  rounded_of_digits_le digits_rounded_le

/-- Zero, or a leading digit within the supported powers of ten. -/
def InRange (d : Decimal) : Prop := d.isZero = true ∨ d.adjusted.natAbs ≤ maxExponent

instance (d : Decimal) : Decidable d.InRange := inferInstanceAs (Decidable (_ ∨ _))

theorem checked_of_inRange (range : d.InRange) : d.checked = .ok d := by
  rcases range with zero | near
  · simp [checked, zero]
  · simp [checked, Nat.not_lt.mpr near]

theorem checked_of_not_inRange (far : ¬d.InRange) : d.checked = .error .overflow := by
  obtain ⟨nonzero, beyond⟩ := not_or.mp far
  simp [checked, nonzero, Nat.not_le.mp beyond]

theorem inRange_of_checked {result : Decimal} (passed : d.checked = .ok result) :
    result = d ∧ d.InRange := by
  by_cases range : d.InRange
  · rw [checked_of_inRange range] at passed
    exact ⟨(Except.ok.inj passed).symm, range⟩
  · rw [checked_of_not_inRange range] at passed
    cases passed

theorem inRange_zero : zero.InRange := .inl rfl

theorem inRange_neg (range : d.InRange) : d.neg.InRange := by
  simpa [InRange, neg, isZero, adjusted, digits] using range

/-- A rounding that is not in vain takes the power of ten above the leading digit, and nothing else, in 64 bits. -/
theorem round_eq {ε : Type} (near : Machine.Holds (d.adjusted + 1)) :
    d.round precision mode = (.ok (d.rounded precision mode) : Except (Failure ε) Decimal) := by
  unfold round
  by_cases short : d.digits ≤ max precision 1
  · rw [if_pos (.inl short), rounded_of_digits_le short]
  · have nonzero := mantissa_ne_zero_of_lt_digits (Nat.not_le.mp short)
    have top : d.adjusted + 1 = d.exponent + d.digits := by
      simp only [adjusted, isZero, beq_iff_eq, nonzero, if_false]
      omega
    rw [top] at near
    have below : ¬d.exponent = Limits.integerBound := by
      have := near.2
      omega
    rw [if_neg (not_or.mpr ⟨short, below⟩), Machine.integer_eq near]
    rfl

/-- A rounding that comes about has dropped digits, save from a decimal with the least scale. -/
theorem round_eq_ok {ε : Type} {result : Decimal}
    (found : (d.round precision mode : Except (Failure ε) Decimal) = .ok result) :
    result = d.rounded precision mode ∨
      result = d ∧ d.exponent = Limits.integerBound ∧ max precision 1 < d.digits := by
  by_cases short : d.digits ≤ max precision 1
  · rw [round, if_pos (.inl short)] at found
    exact .inl ((Except.ok.inj found).symm.trans (rounded_of_digits_le short).symm)
  · unfold round at found
    split at found
    next kept => exact .inr ⟨(Except.ok.inj found).symm, kept.resolve_left short, not_le.mp short⟩
    next =>
      obtain ⟨_, -, same⟩ := Results.bind_eq_ok.mp found
      exact .inl (Except.ok.inj same).symm

theorem round_eq_error {ε : Type} {failure : Failure ε} (failed : d.round precision mode = .error failure) :
    failure = .overflow ∧ ¬Machine.Holds (d.adjusted + 1) := by
  by_cases near : Machine.Holds (d.adjusted + 1)
  · rw [round_eq near] at failed
    cases failed
  · refine ⟨?_, near⟩
    unfold round Machine.integer at failed
    split_ifs at failed
    · cases failed
    · exact (Except.error.inj failed).symm

theorem holds_of_inRange (range : d.InRange) : Machine.Holds (d.adjusted + 1) := by
  have near : d.adjusted.natAbs ≤ maxExponent := by
    rcases range with zero | near
    · simp [adjusted, zero]
    · exact near
  unfold Machine.Holds Limits.integerBound
  unfold maxExponent at near
  omega

/-- The rounding of a decimal at the top of the range carries beyond it. -/
def CarriesOut (d : Decimal) (precision : Nat) (mode : Rounding) : Prop :=
  d.adjusted = maxExponent ∧ d.Carries precision mode

/-- A decimal that is not zero lies below the range, and rounding does not carry it back. -/
def Vanishes (d : Decimal) (precision : Nat) (mode : Rounding) : Prop :=
  d.isZero = false ∧ d.adjusted + (if d.Carries precision mode then 1 else 0) < -(maxExponent : Int)

/-- A decimal that is not above the range is within it after a rounding unless it carries out of the
top or lies below the bottom. -/
theorem inRange_rounded_iff_of_le (top : d.isZero = false → d.adjusted ≤ maxExponent) :
    (d.rounded precision mode).InRange ↔ ¬d.CarriesOut precision mode ∧ ¬d.Vanishes precision mode := by
  unfold InRange CarriesOut Vanishes
  rw [isZero_rounded]
  cases zero : d.isZero with
  | true =>
    have : ¬d.adjusted = maxExponent := by simp [adjusted, zero, maxExponent]
    simp [this]
  | false =>
    have bound := top zero
    rw [adjusted_rounded zero]
    by_cases carry : d.Carries precision mode <;> simp [carry] <;> omega

theorem inRange_rounded_iff (range : d.InRange) :
    (d.rounded precision mode).InRange ↔ ¬d.CarriesOut precision mode := by
  have near (nonzero : d.isZero = false) : d.adjusted.natAbs ≤ maxExponent :=
    range.resolve_left (by simp [nonzero])
  have stays : ¬d.Vanishes precision mode := by
    rintro ⟨nonzero, below⟩
    have := near nonzero
    split at below <;> omega
  rw [inRange_rounded_iff_of_le fun nonzero => by have := near nonzero; omega]
  exact and_iff_left stays

end Decimal

end Dialogue
