import Dialogue.Proofs.NotationRoundTrip
import Dialogue.Proofs.NumberDigits

/-! Numbers and their texts. Whatever way a number comes about, it is in normal form and rounding leaves it alone, so
its text shows all of its digits and nothing else, and a reader that is at least as precise finds the same value. -/

namespace Dialogue

namespace Decimal

variable {a b result : Decimal} {precision : Nat} {mode : Rounding}

theorem normal_zero : zero.Normal := .inl ⟨rfl, rfl⟩

theorem normal_ofInt (value : Int) : (ofInt value).Normal := normal_is_normal ..

/-- A change of sign leaves the last digit as it is. -/
theorem normal_neg (written : a.Normal) : a.neg.Normal := by
  unfold Normal at written ⊢
  simp only [neg]
  omega

theorem normal_of_checked_rounded (written : a.Normal) (passed : (a.rounded precision mode).checked = .ok result) :
    result.Normal := by
  obtain ⟨rfl, -⟩ := inRange_of_checked passed
  exact normal_rounded written precision mode

theorem normal_sumByMagnitude (big small : Decimal) (precision : Nat) :
    (big.sumByMagnitude small precision).Normal := by
  simp only [sumByMagnitude]
  split
  all_goals exact normal_is_normal ..

/-- Adding zero only rounds the other operand, so that one has to be in normal form. -/
theorem normal_add (first : a.Normal) (second : b.Normal) (sum : a.add b precision mode = .ok result) :
    result.Normal := by
  unfold add at sum
  split_ifs at sum
  · exact normal_of_checked_rounded first sum
  · exact normal_of_checked_rounded second sum
  all_goals exact normal_of_checked_rounded (normal_sumByMagnitude ..) sum

theorem normal_sub (first : a.Normal) (second : b.Normal) (difference : a.sub b precision mode = .ok result) :
    result.Normal :=
  normal_add first (normal_neg second) difference

theorem normal_mul (product : a.mul b precision mode = .ok result) : result.Normal := by
  unfold mul at product
  split_ifs at product
  · obtain rfl := Except.ok.inj product
    exact normal_zero
  · exact normal_of_checked_rounded (normal_is_normal ..) product

theorem normal_guardedQuotient (a b : Decimal) (precision : Nat) : (a.guardedQuotient b precision).Normal := by
  simp only [guardedQuotient]
  split
  all_goals exact normal_is_normal ..

theorem normal_div (quotient : a.div b precision mode = .ok result) : result.Normal := by
  unfold div at quotient
  split_ifs at quotient
  · obtain rfl := Except.ok.inj quotient
    exact normal_zero
  · exact normal_of_checked_rounded (normal_guardedQuotient ..) quotient

/-- A dividend below the divisor is its own remainder. -/
theorem normal_rem (first : a.Normal) (found : a.rem b = .ok result) : result.Normal := by
  obtain ⟨nonzero, ⟨-, rfl⟩ | ⟨-, rfl⟩⟩ := rem_eq_ok found
  · exact first
  · obtain ⟨rest, same, -⟩ := remainder_eq a nonzero
    rw [same]
    exact normal_is_normal ..

theorem normal_parse {text : String} (read : parse text = .ok result) : result.Normal := by
  obtain ⟨numeral, -, read⟩ := Results.bind_eq_ok.mp read
  obtain ⟨rfl, -⟩ := inRange_of_checked (inRange_eq_ok.mp read)
  exact normal_is_normal ..

private theorem normal_unsignedIn {base : Nat} {numeral : Numeral}
    (found : unsignedIn base numeral precision mode = .ok result) : result.Normal := by
  simp only [unsignedIn] at found
  split at found
  next =>
    obtain rfl := Except.ok.inj found
    exact normal_ofInt _
  next =>
    obtain ⟨fraction, quotient, sum⟩ := Results.bind_eq_ok.mp (inRange_eq_ok.mp found)
    exact normal_add (normal_ofInt _) (normal_div quotient) sum

theorem normal_parseIn {base : Nat} {text : String} (read : parseIn base text precision mode = .ok result) :
    result.Normal := by
  unfold parseIn at read
  split at read
  next =>
    obtain ⟨exact, found, rounding⟩ := Results.bind_eq_ok.mp read
    obtain rfl := Except.ok.inj rounding
    exact normal_rounded (normal_parse found) precision mode
  next =>
    obtain ⟨numeral, -, read⟩ := Results.bind_eq_ok.mp read
    obtain ⟨unsigned, found, read⟩ := Results.bind_eq_ok.mp read
    obtain ⟨value, passed, read⟩ := Results.bind_eq_ok.mp read
    have written := normal_of_checked_rounded (normal_unsignedIn found) (inRange_eq_ok.mp passed)
    obtain rfl := Except.ok.inj read
    split
    · exact normal_neg written
    · exact written

end Decimal

namespace Number

variable {config : Config} {number result : Number}

/-- Numbers from the ways there are to make them: from a decimal, from an integer or a truth value, from a text,
with a new precision, and from the operations, whatever settings each of them is under. -/
inductive Obtained : Number → Prop where
  | new {value : Decimal} {precision : Nat} {mode : Rounding} {number : Number} (written : value.Normal)
      (made : Number.new value precision mode = (.ok number : Except (Failure Cause) Number)) : Obtained number
  | zero (precision : Nat) : Obtained (.zero precision)
  | integer (value : Int) (config : Config) : Obtained (.integer value config)
  | ofBool (value : Bool) (config : Config) : Obtained (.ofBool value config)
  | parse {text : String} {config : Config} {number : Number} (read : Number.parse text config = .ok number) :
      Obtained number
  | withPrecision {number result : Number} {precision : Nat} {mode : Rounding} (obtained : Obtained number)
      (made : number.withPrecision precision mode = (.ok result : Except (Failure Cause) Number)) : Obtained result
  | unary {operation : UnaryOperation} {operand : Scalar} {config : Config} {result : Number}
      (obtained : ∀ number, operand = .number number → Obtained number)
      (computed : Scalar.unary operation operand config = .ok (.number result)) : Obtained result
  | binary {operation : BinaryOperation} {left right : Scalar} {config : Config} {result : Number}
      (obtained : ∀ number, left = .number number ∨ right = .number number → Obtained number)
      (computed : Scalar.binary operation left right config = .ok (.number result)) : Obtained result

/-- Every digit is significant, and rounding leaves them alone. -/
structure Proper (number : Number) : Prop where
  written : number.value.Normal
  exact : number.Exact

private theorem proper_rounded {value : Decimal} {precision : Nat} {mode : Rounding} (written : value.Normal) :
    (rounded value precision mode).Proper :=
  ⟨Decimal.normal_rounded written precision mode, exact_rounded⟩

theorem proper_new {ε : Type} {value : Decimal} {precision : Nat} {mode : Rounding} (written : value.Normal)
    (made : (new value precision mode : Except (Failure ε) Number) = .ok number) : number.Proper := by
  refine ⟨?_, exact_new made⟩
  obtain ⟨result, found, same⟩ := Results.bind_eq_ok.mp made
  obtain rfl := Except.ok.inj same
  rcases Decimal.round_eq_ok found with rfl | ⟨rfl, -⟩
  · exact Decimal.normal_rounded written precision mode
  · exact written

theorem proper_zero {precision : Nat} : (zero precision).Proper := ⟨Decimal.normal_zero, exact_zero⟩

theorem proper_integer {value : Int} : (integer value config).Proper := proper_rounded (Decimal.normal_ofInt value)

theorem Proper.neg (proper : number.Proper) : number.neg.Proper :=
  ⟨Decimal.normal_neg proper.written, proper.exact.neg⟩

private theorem proper_parse {text : String} (read : parse text config = .ok number) : number.Proper := by
  refine ⟨?_, exact_parse read⟩
  unfold parse at read
  split at read
  next =>
    obtain rfl := Except.ok.inj read
    exact Decimal.normal_zero
  next =>
    split at read
    next value found =>
      obtain rfl := Except.ok.inj read
      exact Decimal.normal_parseIn found
    next => cases read

end Number

namespace Scalar

variable {config : Config} {operation : BinaryOperation} {left right scalar : Scalar} {a b result : Number}

/-- Only a number can be improper. -/
def Proper (scalar : Scalar) : Prop := ∀ number, scalar = .number number → number.Proper

theorem Proper.asNumber {number : Number} (proper : scalar.Proper) (read : scalar.asNumber config = .ok number) :
    number.Proper := by
  cases scalar with
  | number value =>
    obtain rfl := Except.ok.inj read
    exact proper value rfl
  | text value => exact Number.proper_parse read
  | truth value =>
    obtain rfl := Except.ok.inj read
    exact Number.proper_integer

/-- The result of a rule is rounded once more, which keeps the normal form that the rule gives it. -/
theorem proper_computed
    {compute : Decimal → Decimal → Nat → Rounding → Except (Failure ArithmeticError) Decimal} {symbol : String}
    (written : ∀ {value precision mode}, compute a.value b.value precision mode = .ok value → value.Normal)
    (computed : Scalar.number <$> Number.arithmetic compute symbol a b config = .ok (.number result)) :
    result.Proper := by
  obtain ⟨number, found, same⟩ := Results.map_eq_ok.mp computed
  obtain rfl := Scalar.number.inj same
  simp only [Number.arithmetic] at found
  split at found
  next value worked => exact Number.proper_new (written worked) found
  next => cases found

private theorem proper_numeric (first : a.Proper) (second : b.Proper)
    (computed : numeric operation a b config = .ok (.number result)) : result.Proper := by
  cases operation with
  | add =>
    refine proper_computed (fun sum => ?_) computed
    exact Decimal.normal_add first.written second.written (Failure.refusing_eq_ok.mp sum)
  | sub =>
    refine proper_computed (fun difference => ?_) computed
    exact Decimal.normal_sub first.written second.written (Failure.refusing_eq_ok.mp difference)
  | mul => exact proper_computed (fun product => Decimal.normal_mul (Failure.refusing_eq_ok.mp product)) computed
  | div => exact proper_computed (fun quotient => Decimal.normal_div (Failure.refusing_eq_ok.mp quotient)) computed
  | rem => exact proper_computed (Decimal.normal_rem first.written) computed
  | eq | notEq | lt | ltEq | gt | gtEq | and | or => nomatch computed

/-- No operation on a text gives a number. -/
private theorem textual_ne_number {text : String} : textual operation text right config ≠ .ok (.number result) := by
  intro computed
  cases operation with
  | mul =>
    obtain ⟨count, -, computed⟩ := Results.bind_eq_ok.mp computed
    split at computed
    all_goals cases computed
  | sub | div | rem => cases computed
  | _ =>
    obtain ⟨read, -, computed⟩ := Results.bind_eq_ok.mp computed
    cases computed

private theorem proper_binary (first : left.Proper) (second : right.Proper)
    (computed : binary operation left right config = .ok (.number result)) : result.Proper := by
  unfold binary at computed
  split at computed
  · obtain ⟨_, -, same⟩ := Results.map_eq_ok.mp computed
    cases same
  · obtain ⟨_, -, same⟩ := Results.map_eq_ok.mp computed
    cases same
  · split at computed
    next value =>
      obtain ⟨other, read, computed⟩ := Results.bind_eq_ok.mp computed
      exact proper_numeric (first value rfl) (second.asNumber read) computed
    next => exact absurd computed textual_ne_number
    next value =>
      unfold logical at computed
      split at computed
      · obtain ⟨other, read, computed⟩ := Results.bind_eq_ok.mp computed
        exact proper_numeric Number.proper_integer (second.asNumber read) computed
      · obtain ⟨_, -, same⟩ := Results.bind_eq_ok.mp computed
        cases same

private theorem proper_unary {operation : UnaryOperation} (proper : scalar.Proper)
    (computed : unary operation scalar config = .ok (.number result)) : result.Proper := by
  unfold unary at computed
  split at computed
  next =>
    obtain ⟨_, -, same⟩ := Results.bind_eq_ok.mp computed
    cases same
  next value =>
    obtain rfl := Scalar.number.inj (Except.ok.inj computed)
    exact (proper value rfl).neg
  next =>
    obtain rfl := Scalar.number.inj (Except.ok.inj computed)
    exact Number.proper_integer.neg
  next => cases computed

end Scalar

namespace Number

variable {number : Number}

theorem Obtained.proper (obtained : number.Obtained) : number.Proper := by
  induction obtained with
  | new written made => exact proper_new written made
  | zero => exact proper_zero
  | integer | ofBool => exact proper_integer
  | parse read => exact proper_parse read
  | withPrecision _ made ih => exact proper_new ih.written made
  | unary _ computed ih => exact Scalar.proper_unary ih computed
  | binary _ computed ih =>
    refine Scalar.proper_binary (fun number same => ?_) (fun number same => ?_) computed
    · exact ih number (.inl same)
    · exact ih number (.inr same)

/-- The rounding before a number is written has nothing to do. -/
theorem Proper.text_eq {ε : Type} (proper : number.Proper) (config : Config) :
    (number.text config : Except (Failure ε) String) = number.value.write config.maxDigits := by
  rw [text, proper.exact.round_eq]
  rfl

/-- A text that can be read is not blank, so the rule that a blank text is zero does not apply to it. -/
private theorem parse_eq_of_parse {text : String} {value : Decimal} {config : Config} (ten : config.base = 10)
    (read : Decimal.parse text = .ok value) :
    parse text config = .ok (rounded value config.precision config.rounding) := by
  have shown : ¬(Text.trim text).isEmpty = true := by
    intro blank
    rw [Decimal.parse_blank blank] at read
    cases read
  have found : Decimal.parseIn config.base text config.precision config.rounding =
      .ok (value.rounded config.precision config.rounding) := by
    rw [ten, Decimal.parseIn, if_pos rfl, read]
    rfl
  rw [parse, if_neg shown, found]
  rfl

/-- A number within range has no more digits than its precision, and its text says what it is. -/
theorem Proper.parse_text (proper : number.Proper) (range : number.value.InRange) {writer reader : Config}
    (ten : reader.base = 10) (finer : number.precision ≤ reader.precision) :
    ∃ text, (number.text writer : Except (Failure Cause) String) = .ok text ∧
      parse text reader = .ok ⟨number.value, reader.precision⟩ := by
  have low := Decimal.exponent_lt_of_inRange proper.written range
  have short : number.value.digits ≤ max reader.precision 1 :=
    (proper.exact.resolve_right low.ne).trans (by omega)
  obtain ⟨text, shown, read, -⟩ := Decimal.parse_write proper.written range writer.maxDigits
  refine ⟨text, ?_, ?_⟩
  · rw [proper.text_eq, shown]
  · rw [parse_eq_of_parse ten read, rounded, Decimal.rounded_of_digits_le short]

/-- Integers of 64 bits have texts. -/
theorem text_integer {value : Int} (least : -(2 ^ 63) ≤ value) (most : value < 2 ^ 63) (made writer : Config) :
    ∃ text, ((integer value made).text writer : Except (Failure Cause) String) = .ok text := by
  have range : (integer value made).value.InRange := inRange_integer least most
  obtain ⟨text, written, -⟩ := Decimal.parse_write proper_integer.written range writer.maxDigits
  exact ⟨text, proper_integer.text_eq writer ▸ written⟩

/-- The text of a number is exact. Whatever the number comes from, it has no more digits than its precision, unless its
exponent is the largest that there is. No rounding to that precision changes it, and its text takes nothing from the
settings but the budget of digits. A reader in base ten with at least that precision finds the same value, whatever the
budget was. -/
theorem text_exact (obtained : number.Obtained) :
    (number.value.exponent ≠ Limits.integerBound → number.value.digits ≤ max number.precision 1) ∧
    (∀ mode, number.value.round number.precision mode = (.ok number.value : Except (Failure Cause) Decimal)) ∧
    (∀ config mode, (number.text { config with rounding := mode } : Except (Failure Cause) String) =
      number.text config) ∧
    (number.value.InRange → ∀ writer reader : Config, reader.base = 10 → number.precision ≤ reader.precision →
      ∃ text, (number.text writer : Except (Failure Cause) String) = .ok text ∧
        parse text reader = .ok ⟨number.value, reader.precision⟩) := by
  have proper := obtained.proper
  refine ⟨proper.exact.resolve_right, fun mode => proper.exact.round_eq mode, ?_, ?_⟩
  · intro config mode
    rw [proper.text_eq, proper.text_eq]
  · intro range writer reader ten finer
    exact proper.parse_text range ten finer

/-- Minus two thirds with six digits, and what is left of them after steps of four hundredths. -/
theorem text_exact_remainder :
    (⟨⟨-26667, -6⟩, 6⟩ : Number).Obtained ∧ (⟨-26667, -6⟩ : Decimal).InRange ∧
      text ⟨⟨-26667, -6⟩, 6⟩ { rounding := .floor, maxDigits := 5 } =
        (.ok "-2.6667e-2" : Except (Failure Cause) String) ∧
      parse "-2.6667e-2" { precision := 9, rounding := .awayFromZero } = .ok ⟨⟨-26667, -6⟩, 9⟩ := by
  have divided : (⟨⟨-666667, -6⟩, 6⟩ : Number).Obtained := by
    refine @Obtained.binary .div (.number ⟨⟨-2, 0⟩, 6⟩) (.text "3") { precision := 1 } _ ?_ (by decide +kernel)
    rintro number (left | right)
    · obtain rfl := Scalar.number.inj left
      have two : (⟨⟨-2, 0⟩, 6⟩ : Number) = integer (-2) { precision := 6 } := by decide +kernel
      rw [two]
      exact .integer (-2) { precision := 6 }
    · cases right
  have obtained : (⟨⟨-26667, -6⟩, 6⟩ : Number).Obtained := by
    refine @Obtained.binary .rem (.number ⟨⟨-666667, -6⟩, 6⟩) (.text "4e-2") { precision := 3 } _ ?_ (by decide +kernel)
    rintro number (left | right)
    · obtain rfl := Scalar.number.inj left
      exact divided
    · cases right
  have range : (⟨-26667, -6⟩ : Decimal).InRange := by decide +kernel
  have written : text ⟨⟨-26667, -6⟩, 6⟩ { rounding := .floor, maxDigits := 5 } =
      (.ok "-2.6667e-2" : Except (Failure Cause) String) := by decide +kernel
  obtain ⟨-, -, -, back⟩ := text_exact obtained
  obtain ⟨shown, same, read⟩ := back range { rounding := .floor, maxDigits := 5 }
    { precision := 9, rounding := .awayFromZero } rfl (by decide)
  obtain rfl := Except.ok.inj (same.symm.trans written)
  exact ⟨obtained, range, written, read⟩

/-- The scale of 123450 times the largest power of ten is the least one when the zero at the end is left out. Four
digits are to be dropped, but the scale cannot be lowered, and all of them stay. -/
theorem digits_kept_by_least_scale :
    (Decimal.ofParts 123450 9223372036854775807 : Except (Failure Cause) Decimal) =
        .ok ⟨12345, 9223372036854775808⟩ ∧
      (new ⟨12345, 9223372036854775808⟩ 1 .halfEven : Except (Failure Cause) Number) =
        .ok ⟨⟨12345, 9223372036854775808⟩, 1⟩ ∧
      (⟨⟨12345, 9223372036854775808⟩, 1⟩ : Number).Obtained ∧
      ¬(⟨12345, 9223372036854775808⟩ : Decimal).digits ≤ max 1 1 := by
  have made : (new ⟨12345, 9223372036854775808⟩ 1 .halfEven : Except (Failure Cause) Number) =
      .ok ⟨⟨12345, 9223372036854775808⟩, 1⟩ := by decide +kernel
  exact ⟨by decide +kernel, made, .new (.inr (by decide)) made, by decide +kernel⟩

end Number

end Dialogue
