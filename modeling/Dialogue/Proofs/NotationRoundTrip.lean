import Dialogue.Decimal.Notation
import Dialogue.Proofs.ExactReading
import Dialogue.Proofs.NumeralText

/-! Written decimals are read back as they were. Each way of writing spells the mantissa with zeros on
one side and moves the point, so the value is the same and reading finds it in normal form. -/

namespace Dialogue

namespace Spelling

open Digits

variable (spelling : Spelling)

/-- The natural that all digits stand for. -/
def magnitude : Nat := Nat.ofDigitChars 10 (spelling.whole ++ spelling.fraction.getD []) 0

/-- The decimal that the text denotes. -/
def value : Decimal :=
  .normal (if spelling.negative then -(spelling.magnitude : Int) else spelling.magnitude)
    (spelling.exponent.getD 0 - (spelling.fraction.getD []).length)

theorem parse_text : Decimal.parse (String.ofList spelling.text) = Decimal.inRange spelling.value.checked :=
  Decimal.parse_of_read spelling.read_text

private theorem parse_text_of_inRange (range : spelling.value.InRange) :
    Decimal.parse (String.ofList spelling.text) = .ok spelling.value := by
  rw [parse_text, Decimal.checked_of_inRange range]
  rfl

/-- A spelling of the mantissa with zeros after it denotes the decimal if its point stands right. -/
theorem value_eq {d : Decimal} (written : d.Normal) (negative : spelling.negative = d.isNegative) (zeros : Nat)
    (digits : spelling.magnitude = d.mantissa.natAbs * 10 ^ zeros)
    (point : spelling.exponent.getD 0 - (spelling.fraction.getD []).length + zeros = d.exponent) :
    spelling.value = d := by
  have signed : (if spelling.negative then -(spelling.magnitude : Int) else spelling.magnitude) =
      d.mantissa * 10 ^ zeros := by
    rw [negative, digits]
    push_cast
    simp only [Decimal.isNegative, decide_eq_true_eq]
    split
    next below => rw [abs_of_neg below, neg_mul, neg_neg]
    next above => rw [abs_of_nonneg (Int.not_lt.mp above)]
  rw [value, signed, Decimal.normal_mul_pow, point, written.normal_eq]

/-- Only an exponent brings its mark into the text. -/
private theorem mark_mem_text : 'e' ∈ spelling.text ↔ spelling.exponent ≠ none := by
  constructor
  · intro member absent
    rcases List.mem_append.mp member with sign | rest
    · split at sign <;> simp at sign
    · rcases List.mem_append.mp rest with inMantissa | inTail
      · rcases spelling.mem_mantissa inMantissa with digit | point
        · exact absurd digit (by decide)
        · exact absurd point (by decide)
      · simp [tail, absent] at inTail
  · intro present
    obtain ⟨power, found⟩ := Option.ne_none_iff_exists'.mp present
    simp [text, tail, found]

end Spelling

namespace Decimal

open Digits

/-- A text in plain notation has no exponent. -/
def IsPlain (text : String) : Prop :=
  ∃ spelling : Spelling, text = String.ofList spelling.text ∧ spelling.exponent = none

/-- A text in scientific notation has an exponent and one digit before the point, which is no zero. -/
def IsScientific (text : String) : Prop :=
  ∃ spelling : Spelling, text = String.ofList spelling.text ∧ spelling.exponent ≠ none ∧
    spelling.whole.length = 1 ∧ spelling.whole ≠ ['0']

private theorem not_isScientific_of_isPlain {text : String} (plain : IsPlain text) : ¬IsScientific text := by
  rintro ⟨second, same, present, -⟩
  obtain ⟨first, rfl, absent⟩ := plain
  have equal : first.text = second.text := by simpa using congrArg String.toList same
  exact first.mark_mem_text.mp (equal ▸ second.mark_mem_text.mpr present) absent

/-- The digits that plain notation takes: the mantissa and its trailing zeros, the mantissa alone, or
for values below one the digits after the point. -/
def plainDigits (d : Decimal) : Nat :=
  if 0 ≤ d.exponent then d.digits + d.exponent.toNat
  else if 0 < d.digits + d.exponent then d.digits
  else d.exponent.natAbs

/-- The digits of the mantissa as they are written. -/
def figures (d : Decimal) : List Char := Digits.text d.mantissa.natAbs

theorem figures_are_digits (d : Decimal) : AreDigits d.figures := areDigits_text _

theorem figures_ne_nil (d : Decimal) : d.figures ≠ [] := Nat.toDigits_ne_nil

theorem length_figures (d : Decimal) : d.figures.length = d.digits := length_text _

theorem magnitude_figures (d : Decimal) : Nat.ofDigitChars 10 d.figures 0 = d.mantissa.natAbs :=
  Nat.ofDigitChars_ten_toDigits

/-- The whole number that a decimal without digits after the point is. -/
def padded (d : Decimal) : Spelling where
  negative := d.isNegative
  whole := d.figures ++ List.replicate d.exponent.toNat '0'
  wholeDigits := areDigits_append.mpr ⟨d.figures_are_digits, areDigits_zeros _⟩
  fractionDigits := by simp [AreDigits]
  nonempty := .inl (by simp [d.figures_ne_nil])
  range := by simp

/-- The mantissa with a point after so many digits. -/
def pointed (d : Decimal) (places : Nat) : Spelling where
  negative := d.isNegative
  whole := d.figures.take places
  fraction := some (d.figures.drop places)
  wholeDigits c member := d.figures_are_digits c (List.mem_of_mem_take member)
  fractionDigits c member := d.figures_are_digits c (List.mem_of_mem_drop member)
  nonempty := by
    have all := d.figures_ne_nil
    rw [← List.take_append_drop places d.figures, ne_eq, List.append_eq_nil_iff, not_and_or] at all
    exact all
  range := by simp

/-- The mantissa after a point and so many zeros. -/
def sunk (d : Decimal) (zeros : Nat) : Spelling where
  negative := d.isNegative
  whole := ['0']
  fraction := some (List.replicate zeros '0' ++ d.figures)
  wholeDigits := by simp [AreDigits]
  fractionDigits := areDigits_append.mpr ⟨areDigits_zeros _, d.figures_are_digits⟩
  nonempty := .inl (by simp)
  range := by simp

/-- The first digit, the others after a point and the power of ten of the first. -/
def exponential (d : Decimal) (range : d.adjusted.natAbs ≤ maxExponent) : Spelling where
  negative := d.isNegative
  whole := d.figures.take 1
  fraction := if d.figures.length > 1 then some (d.figures.drop 1) else none
  exponent := some d.adjusted
  wholeDigits c member := d.figures_are_digits c (List.mem_of_mem_take member)
  fractionDigits := by
    split
    · exact fun c member => d.figures_are_digits c (List.mem_of_mem_drop member)
    · simp [AreDigits]
  nonempty := .inl (by simp [d.figures_ne_nil])
  range := by simpa using range

variable {d : Decimal} (written : d.Normal)

include written

private theorem value_padded (whole : 0 ≤ d.exponent) : d.padded.value = d := by
  refine d.padded.value_eq written rfl d.exponent.toNat ?_ ?_
  · simp [Spelling.magnitude, padded, Nat.ofDigitChars_append, magnitude_figures, Nat.mul_comm]
  · simp [padded, whole]

private theorem value_pointed (below : d.exponent < 0) (above : 0 < d.digits + d.exponent) :
    (d.pointed (d.digits + d.exponent).toNat).value = d := by
  refine Spelling.value_eq _ written rfl 0 ?_ ?_
  · simp [Spelling.magnitude, pointed, magnitude_figures]
  · simp only [pointed, Option.getD_none, Option.getD_some, List.length_drop, length_figures]
    omega

private theorem value_sunk (small : d.digits + d.exponent ≤ 0) :
    (d.sunk (d.digits + d.exponent).natAbs).value = d := by
  refine Spelling.value_eq _ written rfl 0 ?_ ?_
  · simp [Spelling.magnitude, sunk, Nat.ofDigitChars_append, Nat.ofDigitChars_cons, magnitude_figures]
  · simp only [sunk, Option.getD_none, Option.getD_some, List.length_append, List.length_replicate, length_figures]
    omega

private theorem value_exponential (nonzero : d.isZero = false) (range : d.adjusted.natAbs ≤ maxExponent) :
    (d.exponential range).value = d := by
  have all : d.figures.take 1 ++ (d.exponential range).fraction.getD [] = d.figures := by
    simp only [exponential]
    split
    next several => exact List.take_append_drop 1 d.figures
    next single => simp [List.take_of_length_le (Nat.not_lt.mp single)]
  refine Spelling.value_eq _ written rfl 0 ?_ ?_
  · simp only [Spelling.magnitude, Nat.pow_zero, Nat.mul_one, ← magnitude_figures]
    exact congrArg (Nat.ofDigitChars 10 · 0) all
  · have lengths := congrArg List.length all
    have positive : 0 < d.digits := Digits.count_pos _
    have power : (d.exponential range).exponent.getD 0 = d.exponent + (d.digits - 1 : Int) := by
      simp [exponential, adjusted, nonzero]
    rw [List.length_append, List.length_take, length_figures] at lengths
    rw [power]
    omega

omit written

/-- The spelling of a decimal in plain notation. -/
def plainSpelling (d : Decimal) : Spelling :=
  if 0 ≤ d.exponent then d.padded
  else if 0 < d.digits + d.exponent then d.pointed (d.digits + d.exponent).toNat
  else d.sunk (d.digits + d.exponent).natAbs

private theorem negative_plainSpelling : d.plainSpelling.negative = d.isNegative := by
  unfold plainSpelling
  split_ifs <;> rfl

private theorem exponent_plainSpelling : d.plainSpelling.exponent = none := by
  unfold plainSpelling
  split_ifs <;> rfl

private theorem value_plainSpelling (written : d.Normal) : d.plainSpelling.value = d := by
  unfold plainSpelling
  split_ifs with whole above
  · exact value_padded written whole
  · exact value_pointed written (Int.not_le.mp whole) above
  · exact value_sunk written (Int.not_lt.mp above)

/-- Plain notation is taken within the budget and no other time. -/
theorem plain?_eq (budget : Nat) :
    plain? d.figures d.exponent budget =
      if d.plainDigits ≤ budget then some d.plainSpelling.mantissa else none := by
  unfold plain? plainDigits plainSpelling
  simp only [length_figures]
  split_ifs <;>
    simp_all [Spelling.mantissa, padded, pointed, sunk]
  all_goals omega

theorem adjusted_eq (nonzero : d.isZero = false) : (d.figures.length - 1 + d.exponent : Int) = d.adjusted := by
  simp only [adjusted, nonzero, length_figures, Bool.false_eq_true, if_false]
  omega

private theorem scientific_eq {ε : Type} (nonzero : d.isZero = false) (range : d.adjusted.natAbs ≤ maxExponent) :
    (scientific d.figures d.exponent : Except (Failure ε) (List Char)) =
      .ok ((d.exponential range).mantissa ++ (d.exponential range).tail) := by
  have held : Machine.Holds d.adjusted := by
    unfold Machine.Holds Limits.integerBound
    unfold maxExponent at range
    omega
  rw [scientific, adjusted_eq nonzero, Machine.integer_eq held]
  simp only [bind, Except.bind, pure, Except.pure, Spelling.mantissa, Spelling.tail, exponential, Option.elim_some,
    Numeral.spelledExponent]
  split_ifs <;> simp

/-- All exponents but the one of the least scale are read off as they are. -/
theorem lastPlace_eq (low : d.exponent < Limits.integerBound) : d.lastPlace = d.exponent :=
  min_eq_left (Int.le_sub_one_of_lt low)

theorem exponent_lt_of_inRange (written : d.Normal) (range : d.InRange) : d.exponent < Limits.integerBound := by
  cases zero : d.isZero with
  | true =>
    have plain : d.exponent = 0 := by
      rcases written with ⟨-, plain⟩ | other
      · exact plain
      · simp only [isZero, beq_iff_eq] at zero
        simp [zero] at other
    rw [plain]
    decide
  | false =>
    have top := (range.exponent_bounds zero).2
    unfold maxExponent at top
    unfold Limits.integerBound
    omega

private theorem eq_zero_of_isZero (written : d.Normal) (none : d.isZero = true) : d = zero := by
  have mantissa : d.mantissa = 0 := by simpa [isZero] using none
  rw [← written.normal_eq, mantissa]
  unfold normal
  rfl

private theorem plainDigits_zero : zero.plainDigits = 1 := by decide +kernel

/-- Within the budget the plain spelling is written. -/
private theorem write_of_plainDigits_le {ε : Type} (written : d.Normal) (low : d.exponent < Limits.integerBound)
    {budget : Nat}
    (fits : d.plainDigits ≤ max budget 1) :
    (d.write budget : Except (Failure ε) String) = .ok (String.ofList d.plainSpelling.text) := by
  cases none : d.isZero with
  | true =>
    rw [eq_zero_of_isZero written none]
    rfl
  | false =>
    have tail : d.plainSpelling.tail = [] := by simp [Spelling.tail, exponent_plainSpelling]
    have plain := plain?_eq (d := d) (max budget 1)
    rw [if_pos fits, figures] at plain
    simp only [write, none, lastPlace_eq low, plain, Spelling.text, tail, negative_plainSpelling, List.append_nil,
      Bool.false_eq_true, if_false]
    change (Except.ok (String.ofList (if d.isNegative then _ else _)) : Except (Failure ε) String) =
      .ok (String.ofList ((if d.isNegative then _ else _) ++ _))
    split <;> rfl

/-- Beyond the budget the exponential spelling is written. -/
private theorem write_of_lt_plainDigits {ε : Type} (nonzero : d.isZero = false)
    (range : d.adjusted.natAbs ≤ maxExponent)
    (low : d.exponent < Limits.integerBound) {budget : Nat} (long : max budget 1 < d.plainDigits) :
    (d.write budget : Except (Failure ε) String) = .ok (String.ofList (d.exponential range).text) := by
  have plain := plain?_eq (d := d) (max budget 1)
  have other := scientific_eq (ε := ε) nonzero range
  rw [if_neg (Nat.not_le.mpr long), figures] at plain
  rw [figures] at other
  simp only [write, nonzero, lastPlace_eq low, plain, other, Spelling.text, Bool.false_eq_true, if_false]
  change (Except.ok (String.ofList (if d.isNegative then _ else _)) : Except (Failure ε) String) =
    .ok (String.ofList ((if d.isNegative then _ else _) ++ _))
  split <;> rfl

private theorem figures_take_one_ne_zero (nonzero : d.isZero = false) : d.figures.take 1 ≠ ['0'] := by
  have positive : 0 < d.mantissa.natAbs := Int.natAbs_pos.mpr (by simpa [isZero] using nonzero)
  intro zeroFirst
  have first : (d.figures.take 1).head? = d.figures.head? := by simp [List.head?_take]
  exact Digits.head_text_ne_zero positive (first.symm.trans (congrArg List.head? zeroFirst))

private theorem isPlain_plainSpelling (d : Decimal) : IsPlain (String.ofList d.plainSpelling.text) :=
  ⟨d.plainSpelling, rfl, exponent_plainSpelling⟩

private theorem isScientific_exponential (nonzero : d.isZero = false) (range : d.adjusted.natAbs ≤ maxExponent) :
    IsScientific (String.ofList (d.exponential range).text) := by
  refine ⟨d.exponential range, rfl, Option.some_ne_none _, ?_, figures_take_one_ne_zero nonzero⟩
  have positive : 0 < d.digits := Digits.count_pos _
  simp only [exponential, List.length_take, length_figures]
  omega

/-- What is written is read back as it was. It is in plain notation within the budget and in scientific
notation beyond it. -/
theorem parse_write (written : d.Normal) (range : d.InRange) (budget : Nat) :
    ∃ text, (∀ {ε : Type}, (d.write budget : Except (Failure ε) String) = .ok text) ∧
      Decimal.parse text = .ok d ∧
      (IsPlain text ↔ d.plainDigits ≤ max budget 1) ∧
      (IsScientific text ↔ max budget 1 < d.plainDigits) := by
  have low := exponent_lt_of_inRange written range
  by_cases fits : d.plainDigits ≤ max budget 1
  · have plain := isPlain_plainSpelling d
    have value := value_plainSpelling written
    have inside : d.plainSpelling.value.InRange := by rwa [value]
    refine ⟨_, fun {_} => write_of_plainDigits_le written low fits, ?_, iff_of_true plain fits,
      iff_of_false (not_isScientific_of_isPlain plain) (Nat.not_lt.mpr fits)⟩
    rw [Spelling.parse_text_of_inRange _ inside, value]
  · have long := Nat.not_le.mp fits
    have nonzero : d.isZero = false := by
      cases none : d.isZero with
      | false => rfl
      | true =>
        rw [eq_zero_of_isZero written none, plainDigits_zero] at long
        omega
    have near := range.resolve_left (by simp [nonzero])
    have scientific := isScientific_exponential nonzero near
    have value := value_exponential written nonzero near
    have inside : (d.exponential near).value.InRange := by rwa [value]
    refine ⟨_, fun {_} => write_of_lt_plainDigits nonzero near low long, ?_,
      iff_of_false (fun plain => not_isScientific_of_isPlain plain scientific) fits, iff_of_true scientific long⟩
    rw [Spelling.parse_text_of_inRange _ inside, value]

/-- A value at the lower end of the range, beyond any budget. -/
theorem parse_write_lowest :
    (⟨-125, -1000002⟩ : Decimal).Normal ∧ (⟨-125, -1000002⟩ : Decimal).InRange ∧
      ∃ text, (write ⟨-125, -1000002⟩ 40 : Except (Failure Empty) String) = .ok text ∧
        Decimal.parse text = .ok ⟨-125, -1000002⟩ ∧ IsScientific text := by
  have written : (⟨-125, -1000002⟩ : Decimal).Normal := .inr (by decide)
  have range : (⟨-125, -1000002⟩ : Decimal).InRange := by decide +kernel
  obtain ⟨text, shown, same, -, scientific⟩ := parse_write written range 40
  exact ⟨written, range, text, shown, same, scientific.mpr (by decide +kernel)⟩

end Decimal

end Dialogue
