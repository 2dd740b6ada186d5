import Dialogue.Proofs.DecimalRange
import Dialogue.Proofs.Results
import Dialogue.Scalar

/-! Which numbers can leave the supported magnitudes. Sums, products, quotients and numerals in bases
other than ten are checked after their last rounding. Numerals in base ten, changes of the precision
and remainders are not, so the rounding or the exactness of the result can carry them out. -/

namespace Dialogue

namespace Decimal

variable {a b result : Decimal} {precision : Nat} {mode : Rounding}

/-- Within range, and with no more digits than the precision. -/
structure Settled (d : Decimal) (precision : Nat) : Prop where
  range : d.InRange
  digits : d.digits ≤ max precision 1

theorem settled_zero : zero.Settled precision := by
  refine ⟨inRange_zero, ?_⟩
  simp [zero, digits, Digits.count]

theorem settled_of_checked_rounded {d : Decimal}
    (passed : (d.rounded precision mode).checked = .ok result) : result.Settled precision := by
  obtain ⟨rfl, range⟩ := inRange_of_checked passed
  exact ⟨range, digits_rounded_le⟩

theorem Settled.rounded_eq (settled : result.Settled precision) (again : Rounding) :
    result.rounded precision again = result :=
  rounded_of_digits_le settled.digits

theorem settled_add (sum : a.add b precision mode = .ok result) : result.Settled precision := by
  unfold add at sum
  split_ifs at sum
  all_goals exact settled_of_checked_rounded sum

private theorem settled_mul (product : a.mul b precision mode = .ok result) : result.Settled precision := by
  unfold mul at product
  split_ifs at product
  · cases product
    exact settled_zero
  · exact settled_of_checked_rounded product

private theorem settled_div (quotient : a.div b precision mode = .ok result) : result.Settled precision := by
  unfold div at quotient
  split_ifs at quotient
  · cases quotient
    exact settled_zero
  · exact settled_of_checked_rounded quotient

theorem adjusted_of_nonzero {d : Decimal} (nonzero : d.isZero = false) :
    d.adjusted = d.exponent + (Digits.count d.mantissa.natAbs - 1 : Int) := by
  simp [adjusted, nonzero, digits]

/-- Magnitudes that do not stand in the order below have their leading digits in order. -/
theorem adjusted_le_of_not_lt (nonzero : b.isZero = false) (order : a.abs.cmp b.abs ≠ .lt) :
    a.isZero = false ∧ b.adjusted ≤ a.adjusted := by
  have positive : b.abs.sign = 1 := by
    simp only [isZero, beq_eq_false_iff_ne] at nonzero
    simp only [sign, abs, Int.sign_eq_one_iff_pos]
    omega
  cases zero : a.isZero with
  | true =>
    have none : a.abs.sign = 0 := by
      simp only [isZero, beq_iff_eq] at zero
      simp [sign, abs, zero]
    refine absurd ?_ order
    simp [cmp, none, positive, compare, compareOfLessAndEq]
  | false =>
    have same : a.abs.sign = 1 := by
      simp only [isZero, beq_eq_false_iff_ne] at zero
      simp only [sign, abs, Int.sign_eq_one_iff_pos]
      omega
    have unsigned (d : Decimal) : d.abs.isZero = d.isZero ∧ d.abs.adjusted = d.adjusted := by
      simp [abs, isZero, adjusted, digits, Int.natAbs_abs]
    have positiveMantissa : a.abs.isNegative = false := by simp [abs, isNegative]
    refine ⟨rfl, ?_⟩
    simp only [cmp, same, positive, (unsigned a).1, zero, (unsigned a).2, (unsigned b).2, positiveMantissa] at order
    by_contra above
    have less : compare a.adjusted b.adjusted = .lt := compare_lt_iff_lt.mpr (Int.not_le.mp above)
    simp [less] at order

theorem held_eq_ok {ε : Type} {d : Decimal} (found : (d.held : Except (Failure ε) Decimal) = .ok result) :
    result = d ∧ d.exponent ≤ Limits.integerBound := by
  unfold held at found
  split at found
  next fits => exact ⟨(Except.ok.inj found).symm, fits⟩
  next => cases found

/-- The three ways a remainder is found or refused. -/
theorem rem_eq_ok (found : a.rem b = .ok result) :
    b.isZero = false ∧
      (a.abs.cmp b.abs = .lt ∧ result = a ∨ a.abs.cmp b.abs ≠ .lt ∧ result = a.remainder b) := by
  unfold rem at found
  split at found
  · cases found
  next nonzero =>
    refine ⟨by simpa using nonzero, ?_⟩
    split at found
    next less => exact .inl ⟨less, (Except.ok.inj found).symm⟩
    next large =>
      obtain ⟨-, -, fits⟩ := Results.bind_eq_ok.mp found
      exact .inr ⟨large, (held_eq_ok fits).1⟩

theorem lastPlace_le (d : Decimal) : d.lastPlace ≤ d.exponent := min_le_left ..

/-- The digits of a remainder are counted from the lower of the two exponents. -/
theorem remainder_eq (a : Decimal) (divisor : b.isZero = false) :
    ∃ rest : Nat, a.remainder b = normal (a.mantissa.sign * rest) (min a.lastPlace b.lastPlace) ∧
      (b.lastPlace ≤ a.lastPlace ∧ rest < b.mantissa.natAbs ∨ a.lastPlace < b.lastPlace ∧ rest ≤ a.mantissa.natAbs) := by
  have positive : 0 < b.mantissa.natAbs := by simpa [isZero, Nat.pos_iff_ne_zero] using divisor
  unfold remainder
  dsimp only
  split
  next near => exact ⟨_, by rw [min_eq_right near], .inl ⟨near, Nat.mod_lt _ positive⟩⟩
  next far => exact ⟨_, by rw [min_eq_left (not_le.mp far).le], .inr ⟨not_le.mp far, Nat.mod_le _ _⟩⟩

theorem adjusted_remainder_le (divisor : b.isZero = false) (large : a.abs.cmp b.abs ≠ .lt)
    (nonzero : (a.remainder b).isZero = false) : (a.remainder b).adjusted ≤ a.adjusted := by
  obtain ⟨dividend, order⟩ := adjusted_le_of_not_lt divisor large
  have unit : a.mantissa.sign.natAbs = 1 := by
    simp only [isZero, beq_eq_false_iff_ne] at dividend
    exact Int.natAbs_sign_of_ne_zero dividend
  obtain ⟨rest, same, small⟩ := remainder_eq a divisor
  have first := a.lastPlace_le
  have second := b.lastPlace_le
  rw [same, isZero_normal, decide_eq_false_iff_not] at nonzero
  rw [same, adjusted_normal nonzero, Int.natAbs_mul, unit, one_mul, Int.natAbs_natCast]
  rw [adjusted_of_nonzero divisor] at order
  rw [adjusted_of_nonzero dividend] at order ⊢
  rcases small with ⟨near, small⟩ | ⟨far, small⟩
  · have fewer := Digits.count_mono small.le
    omega
  · have fewer := Digits.count_mono small
    omega

/-- The leading digit of a remainder stands no lower than the last digits of the dividend and the divisor. -/
private theorem le_adjusted_remainder (divisor : b.isZero = false) (nonzero : (a.remainder b).isZero = false) :
    min a.lastPlace b.lastPlace ≤ (a.remainder b).adjusted := by
  obtain ⟨rest, same, -⟩ := remainder_eq a divisor
  have least := Digits.count_pos (a.mantissa.sign * rest : Int).natAbs
  rw [same, isZero_normal, decide_eq_false_iff_not] at nonzero
  rw [same, adjusted_normal nonzero]
  omega

/-- A remainder that is not zero has its leading digit no higher than the dividend. -/
private theorem adjusted_rem_le (found : a.rem b = .ok result) (nonzero : result.isZero = false) :
    result.adjusted ≤ a.adjusted := by
  obtain ⟨divisor, ⟨-, rfl⟩ | ⟨large, rfl⟩⟩ := rem_eq_ok found
  · exact le_rfl
  · exact adjusted_remainder_le divisor large nonzero

theorem overflow_of_checked {d : Decimal} {failure : ArithmeticError} (failed : d.checked = .error failure) :
    failure = .overflow := by
  unfold checked at failed
  split_ifs at failed
  exact (Except.error.inj failed).symm

private theorem overflow_of_add {failure : ArithmeticError} (failed : a.add b precision mode = .error failure) :
    failure = .overflow := by
  unfold add at failed
  split_ifs at failed
  all_goals exact overflow_of_checked failed

private theorem overflow_of_mul {failure : ArithmeticError} (failed : a.mul b precision mode = .error failure) :
    failure = .overflow := by
  unfold mul at failed
  split_ifs at failed
  · exact (Except.error.inj failed).symm
  · exact overflow_of_checked failed

theorem div_eq_error {failure : ArithmeticError} (failed : a.div b precision mode = .error failure) :
    failure = .overflow ∨ failure = .divisionByZero ∧ b.isZero = true := by
  unfold div at failed
  split_ifs at failed with zero
  · exact .inr ⟨(Except.error.inj failed).symm, zero⟩
  · exact .inl (Except.error.inj failed).symm
  · exact .inl (overflow_of_checked failed)

/-- A remainder overflows by the distance of the exponents or by its own exponent. -/
private theorem rem_eq_error {failure : Failure ArithmeticError} (failed : a.rem b = .error failure) :
    failure = .refused .divisionByZero ∧ b.isZero = true ∨
      failure = .overflow ∧ b.isZero = false ∧ a.abs.cmp b.abs ≠ .lt ∧
        (¬Machine.Holds (a.lastPlace - b.lastPlace).natAbs ∨ Limits.integerBound < (a.remainder b).exponent) := by
  unfold rem at failed
  split at failed
  next zero => exact .inl ⟨(Except.error.inj failed).symm, zero⟩
  next nonzero =>
    split at failed
    · cases failed
    next large =>
      have divisor : b.isZero = false := by simpa using nonzero
      rcases Results.bind_eq_error.mp failed with far | ⟨_, -, beyond⟩
      · unfold Machine.integer at far
        split at far
        · cases far
        next out => exact .inr ⟨(Except.error.inj far).symm, divisor, large, .inl out⟩
      · unfold held at beyond
        split at beyond
        · cases beyond
        next out => exact .inr ⟨(Except.error.inj beyond).symm, divisor, large, .inr (not_le.mp out)⟩

/-- Within range, an exponent is as far from zero as there are digits and powers of ten. -/
theorem InRange.exponent_bounds {d : Decimal} (range : d.InRange) (nonzero : d.isZero = false) :
    -(maxExponent + d.digits : Int) < d.exponent ∧ d.exponent ≤ maxExponent := by
  have near := range.resolve_left (by simp [nonzero])
  have least := Digits.count_pos d.mantissa.natAbs
  rw [adjusted_of_nonzero nonzero] at near
  unfold digits
  omega

theorem exponent_le_adjusted {d : Decimal} (nonzero : d.isZero = false) : d.exponent ≤ d.adjusted := by
  have least := Digits.count_pos d.mantissa.natAbs
  rw [adjusted_of_nonzero nonzero]
  omega

private theorem exponent_remainder_of_isZero (divisor : b.isZero = false) (zero : (a.remainder b).isZero = true) :
    (a.remainder b).exponent = 0 := by
  obtain ⟨rest, same, -⟩ := remainder_eq a divisor
  rw [same, isZero_normal, decide_eq_true_iff] at zero
  rw [same, zero, normal, if_pos rfl]
  rfl

/-- The remainder of decimals within range overflows only where they have more digits than fit in any memory. -/
private theorem digits_of_rem_overflow (dividend : a.InRange) (divisor : b.InRange)
    (failed : a.rem b = .error .overflow) :
    2 ^ 62 ≤ a.digits + b.digits := by
  obtain ⟨refused, -⟩ | ⟨-, nonzero, large, cause⟩ := rem_eq_error failed
  · cases refused
  · obtain ⟨nonzero', -⟩ := adjusted_le_of_not_lt nonzero large
    have first := dividend.exponent_bounds nonzero'
    have second := divisor.exponent_bounds nonzero
    unfold maxExponent at first second
    rcases cause with far | beyond
    · simp only [Machine.Holds, lastPlace, Limits.integerBound] at far
      omega
    · have remains : (a.remainder b).isZero = false := by
        by_contra zero
        rw [exponent_remainder_of_isZero nonzero (by simpa using zero)] at beyond
        cases beyond
      have top := adjusted_remainder_le nonzero large remains
      have last := exponent_le_adjusted remains
      have near := dividend.resolve_left (by simp [nonzero'])
      simp only [maxExponent, Limits.integerBound] at near beyond
      omega

/-- And so does the rounding of the remainder. -/
private theorem digits_of_round_rem_overflow (dividend : a.InRange) (divisor : b.InRange) (found : a.rem b = .ok result)
    (far : ¬Machine.Holds (result.adjusted + 1)) : 2 ^ 62 ≤ a.digits + b.digits := by
  obtain ⟨nonzero, ⟨-, rfl⟩ | ⟨large, rfl⟩⟩ := rem_eq_ok found
  · exact absurd (holds_of_inRange dividend) far
  · cases remains : (a.remainder b).isZero with
    | true =>
      rw [adjusted, if_pos remains] at far
      exact absurd (by decide) far
    | false =>
      obtain ⟨nonzero', -⟩ := adjusted_le_of_not_lt nonzero large
      have first := dividend.exponent_bounds nonzero'
      have second := divisor.exponent_bounds nonzero
      have top := adjusted_remainder_le nonzero large remains
      have last := le_adjusted_remainder nonzero remains
      have near := dividend.resolve_left (by simp [nonzero'])
      simp only [maxExponent, Machine.Holds, lastPlace, Limits.integerBound] at near first second last far
      omega

theorem inRange_eq_ok {checked : Except ArithmeticError Decimal} :
    inRange checked = .ok result ↔ checked = .ok result := by
  cases checked with
  | error failure => exact ⟨fun same => (nomatch same), fun same => (nomatch same)⟩
  | ok value => exact ⟨fun same => congrArg _ (Except.ok.inj same), fun same => congrArg _ (Except.ok.inj same)⟩

/-- Numerals in bases other than ten are checked after they are rounded; the sign comes last. -/
private theorem inRange_parseIn {base : Nat} {text : String} (other : base ≠ 10)
    (read : parseIn base text precision mode = .ok result) : result.InRange := by
  simp only [parseIn, other, if_false] at read
  obtain ⟨numeral, -, read⟩ := Results.bind_eq_ok.mp read
  obtain ⟨unsigned, -, read⟩ := Results.bind_eq_ok.mp read
  obtain ⟨value, checked, read⟩ := Results.bind_eq_ok.mp read
  have range := (settled_of_checked_rounded (inRange_eq_ok.mp checked)).range
  obtain rfl := Except.ok.inj read
  split
  · exact inRange_neg range
  · exact range

theorem inRange_error {checked : Except ArithmeticError Decimal} {failure : Failure NumeralError}
    (failed : inRange checked = .error failure) : failure ≠ .overflow := by
  cases checked with
  | error _ =>
    obtain rfl := Except.error.inj failed
    exact fun same => nomatch same
  | ok _ => cases failed

theorem digits_error {base : Nat} {text : List Char} {failure : Failure NumeralError}
    (failed : Numeral.digits base text = .error failure) : failure ≠ .overflow := by
  induction text with
  | nil => cases failed
  | cons c rest ih =>
    unfold Numeral.digits at failed
    split at failed
    next digit =>
      rcases Results.bind_eq_error.mp failed with failed | ⟨_, -, same⟩
      · exact ih failed
      · cases same
    next =>
      obtain rfl := Except.error.inj failed
      exact fun same => nomatch same

/-- What is left to do when the exponent is read. -/
theorem gathered_error {base : Nat} {whole fraction : List Char} {negative : Bool} {exponent : Int}
    {failure : Failure NumeralError}
    (failed : (do
      if whole.isEmpty && fraction.isEmpty then throw (.refused .noDigits)
      return ⟨negative, ← Numeral.digits base whole, ← Numeral.digits base fraction, exponent⟩ :
        Except (Failure NumeralError) Numeral) = .error failure) : failure ≠ .overflow := by
  split at failed
  · obtain rfl := Except.error.inj failed
    exact fun same => nomatch same
  · rcases Results.bind_eq_error.mp failed with failed | ⟨_, -, failed⟩
    · exact digits_error failed
    · rcases Results.bind_eq_error.mp failed with failed | ⟨_, -, same⟩
      · exact digits_error failed
      · cases same

/-- Only a written exponent can overflow. -/
private theorem read_error {base : Nat} {text : String} {failure : Failure NumeralError} (other : base ≠ 10)
    (failed : Numeral.read base text = .error failure) : failure ≠ .overflow := by
  unfold Numeral.read at failed
  simp only [if_neg other, List.drop_length] at failed
  split at failed
  · obtain rfl := Except.error.inj failed
    exact fun same => nomatch same
  · exact gathered_error failed

theorem parseIn_overflow {base : Nat} {text : String} (failed : parseIn base text precision mode = .error .overflow) :
    base = 10 ∧ parse text = .error .overflow := by
  unfold parseIn at failed
  split at failed
  next ten =>
    rcases Results.bind_eq_error.mp failed with failed | ⟨_, -, same⟩
    · exact ⟨ten, failed⟩
    · cases same
  next other =>
    rcases Results.bind_eq_error.mp failed with failed | ⟨numeral, -, failed⟩
    · exact absurd rfl (read_error other failed)
    · rcases Results.bind_eq_error.mp failed with failed | ⟨unsigned, -, failed⟩
      · unfold unsignedIn at failed
        dsimp only at failed
        split at failed
        · cases failed
        · exact absurd rfl (inRange_error failed)
      · rcases Results.bind_eq_error.mp failed with failed | ⟨_, -, same⟩
        · exact absurd rfl (inRange_error failed)
        · cases same

private theorem inRange_parse {text : String} (read : parse text = .ok result) : result.InRange := by
  obtain ⟨numeral, -, read⟩ := Results.bind_eq_ok.mp read
  obtain ⟨rfl, range⟩ := inRange_of_checked (inRange_eq_ok.mp read)
  exact range

theorem parse_blank {text : String} (blank : (Text.trim text).isEmpty = true) :
    parse text = .error (.refused .noDigits) := by
  have nothing : Text.trimmed text.toList = [] := by
    simpa [Text.trim] using blank
  simp [parse, Numeral.read, nothing, Numeral.signed, Numeral.splitPoint, bind, Except.bind, throw,
    throwThe, MonadExceptOf.throw, pure, Except.pure]

private theorem adjusted_ofInt_lt {value : Int} (places : Nat) (positive : 0 < places)
    (small : value.natAbs < 10 ^ places) :
    0 ≤ (ofInt value).adjusted ∧ (ofInt value).adjusted < places := by
  by_cases zero : value = 0
  · simpa [ofInt, zero, adjusted] using positive
  · have digits := Digits.count_le_of_lt positive small
    have least := Digits.count_pos value.natAbs
    rw [ofInt, adjusted_normal zero]
    omega

end Decimal

namespace Number

variable {config : Config} {number result : Number} {text : String}

theorem inRange_integer {value : Int} (low : -(2 ^ 63) ≤ value) (high : value < 2 ^ 63) :
    (integer value config).value.InRange := by
  obtain ⟨least, bound⟩ := Decimal.adjusted_ofInt_lt 19 (by decide) (by omega : value.natAbs < 10 ^ 19)
  have range : (Decimal.ofInt value).InRange := .inr (by unfold Decimal.maxExponent; omega)
  refine (Decimal.inRange_rounded_iff range).mpr fun ⟨top, _⟩ => ?_
  unfold Decimal.maxExponent at top
  omega

private theorem new_eq {ε : Type} {value : Decimal} (near : Machine.Holds (value.adjusted + 1)) (precision : Nat)
    (mode : Rounding) : new value precision mode = (.ok (.rounded value precision mode) : Except (Failure ε) Number) := by
  rw [new, Decimal.round_eq near]
  rfl

private theorem new_eq_error {ε : Type} {value : Decimal} {precision : Nat} {mode : Rounding} {failure : Failure ε}
    (failed : new value precision mode = .error failure) :
    failure = .overflow ∧ ¬Machine.Holds (value.adjusted + 1) := by
  rcases Results.bind_eq_error.mp failed with failed | ⟨_, -, same⟩
  · exact Decimal.round_eq_error failed
  · cases same

private theorem new_of_settled {ε : Type} {value : Decimal} {precision : Nat} (settled : value.Settled precision)
    (mode : Rounding) : new value precision mode = (.ok ⟨value, precision⟩ : Except (Failure ε) Number) := by
  rw [new_eq (Decimal.holds_of_inRange settled.range), rounded, settled.rounded_eq]

/-- An operation whose results have been rounded and checked. -/
private theorem arithmetic_of_settled
    {compute : Decimal → Decimal → Nat → Rounding → Except (Failure ArithmeticError) Decimal} {symbol : String}
    {a b : Number} {value : Decimal}
    (found : compute a.value b.value (max a.precision b.precision) config.rounding = .ok value)
    (settled : value.Settled (max a.precision b.precision)) :
    arithmetic compute symbol a b config = .ok ⟨value, max a.precision b.precision⟩ := by
  simp only [arithmetic, found, new_of_settled settled]

private theorem arithmetic_eq_error
    {compute : Decimal → Decimal → Nat → Rounding → Except (Failure ArithmeticError) Decimal} {symbol : String}
    {a b : Number} {failure : Failure Cause} (failed : arithmetic compute symbol a b config = .error failure) :
    (∃ cause, compute a.value b.value (max a.precision b.precision) config.rounding = .error cause ∧
      failure = cause.map (fault symbol)) ∨
    ∃ value, compute a.value b.value (max a.precision b.precision) config.rounding = .ok value ∧
      (new value (max a.precision b.precision) config.rounding : Except (Failure Cause) Number) =
        .error failure := by
  simp only [arithmetic] at failed
  split at failed
  next value found => exact .inr ⟨value, found, failed⟩
  next cause found => exact .inl ⟨cause, found, (Except.error.inj failed).symm⟩

section Rounding

/-- Sums, products and quotients are rounded and then checked. -/
def Settles (rule : Decimal → Decimal → Nat → Rounding → Except ArithmeticError Decimal) : Prop :=
  ∀ {a b result : Decimal} {precision : Nat} {mode : Rounding}, rule a b precision mode = .ok result →
    result.Settled precision

variable {rule : Decimal → Decimal → Nat → Rounding → Except ArithmeticError Decimal} {symbol : String} {a b : Number}

private theorem arithmetic_rounding_eq_ok (settles : Settles rule)
    (computed : arithmetic (fun a b precision mode => Failure.refusing (rule a b precision mode)) symbol a b config =
      .ok result) :
    rule a.value b.value (max a.precision b.precision) config.rounding = .ok result.value ∧
      result.precision = max a.precision b.precision := by
  cases found : rule a.value b.value (max a.precision b.precision) config.rounding with
  | error reason => simp [arithmetic, found, Failure.refusing, Except.mapError] at computed
  | ok value =>
    rw [arithmetic_of_settled (Failure.refusing_eq_ok.mpr found) (settles found)] at computed
    obtain rfl := Except.ok.inj computed
    exact ⟨rfl, rfl⟩

/-- Sums, products and quotients of numbers are within range whatever the operands are. -/
theorem inRange_arithmetic (settles : Settles rule)
    (computed : arithmetic (fun a b precision mode => Failure.refusing (rule a b precision mode)) symbol a b config =
      .ok result) :
    result.value.InRange :=
  (settles (arithmetic_rounding_eq_ok settles computed).1).range

theorem arithmetic_rounding_eq_error (settles : Settles rule) {failure : Failure Cause}
    (failed : arithmetic (fun a b precision mode => Failure.refusing (rule a b precision mode)) symbol a b config =
      .error failure) :
    ∃ reason, rule a.value b.value (max a.precision b.precision) config.rounding = .error reason ∧
      failure = .refused (fault symbol reason) := by
  obtain ⟨cause, found, rfl⟩ | ⟨value, found, failed⟩ := arithmetic_eq_error failed
  · obtain ⟨reason, refused, rfl⟩ := Failure.refusing_eq_error.mp found
    exact ⟨reason, refused, rfl⟩
  · rw [new_of_settled (settles (Failure.refusing_eq_ok.mp found))] at failed
    cases failed

end Rounding

/-- A base-ten numeral is checked before it is rounded, and all others after. -/
private theorem inRange_parse_iff (read : parse text config = .ok number) :
    number.value.InRange ↔
      ¬(config.base = 10 ∧ ∃ exact, Decimal.parse text = .ok exact ∧
        exact.CarriesOut config.precision config.rounding) := by
  unfold parse at read
  split at read
  next blank =>
    obtain rfl := Except.ok.inj read
    simp [zero, Decimal.inRange_zero, Decimal.parse_blank blank]
  next written =>
    split at read
    next value found =>
      obtain rfl := Except.ok.inj read
      by_cases ten : config.base = 10
      · simp only [Decimal.parseIn, ten, if_true] at found
        obtain ⟨exact, parsed, rounding⟩ := Results.bind_eq_ok.mp found
        obtain rfl := Except.ok.inj rounding
        simp only [Decimal.inRange_rounded_iff (Decimal.inRange_parse parsed), ten, true_and, parsed,
          Except.ok.injEq, exists_eq_left']
      · simp [ten, Decimal.inRange_parseIn ten found]
    next => cases read

end Number

namespace Scalar

variable {config : Config} {operation : BinaryOperation} {a b : Number} {result : Scalar}

/-- Only numbers have a magnitude. -/
def InRange : Scalar → Prop
  | number value => value.value.InRange
  | _ => True

private theorem inRange_numeric (other : operation ≠ .rem) (computed : numeric operation a b config = .ok result) :
    result.InRange := by
  cases operation with
  | rem => contradiction
  | add =>
    obtain ⟨value, found, rfl⟩ := Results.map_eq_ok.mp computed
    exact Number.inRange_arithmetic Decimal.settled_add found
  | sub =>
    obtain ⟨value, found, rfl⟩ := Results.map_eq_ok.mp computed
    exact Number.inRange_arithmetic Decimal.settled_add found
  | mul =>
    obtain ⟨value, found, rfl⟩ := Results.map_eq_ok.mp computed
    exact Number.inRange_arithmetic Decimal.settled_mul found
  | div =>
    obtain ⟨value, found, rfl⟩ := Results.map_eq_ok.mp computed
    exact Number.inRange_arithmetic Decimal.settled_div found
  | _ =>
    obtain rfl := Except.ok.inj computed
    trivial

private theorem inRange_textual {text : String} {right : Scalar}
    (computed : textual operation text right config = .ok result) : result.InRange := by
  cases operation with
  | mul =>
    obtain ⟨count, -, computed⟩ := Results.bind_eq_ok.mp computed
    split at computed
    · obtain rfl := Except.ok.inj computed
      trivial
    · cases computed
  | sub | div | rem => cases computed
  | _ =>
    obtain ⟨read, -, computed⟩ := Results.bind_eq_ok.mp computed
    obtain rfl := Except.ok.inj computed
    trivial

private theorem inRange_binary {left right : Scalar} (other : operation ≠ .rem)
    (computed : binary operation left right config = .ok result) : result.InRange := by
  unfold binary at computed
  split at computed
  · obtain ⟨value, -, rfl⟩ := Results.map_eq_ok.mp computed
    trivial
  · obtain ⟨value, -, rfl⟩ := Results.map_eq_ok.mp computed
    trivial
  · split at computed
    · obtain ⟨number, -, computed⟩ := Results.bind_eq_ok.mp computed
      exact inRange_numeric other computed
    · exact inRange_textual computed
    · unfold logical at computed
      split at computed
      · obtain ⟨number, -, computed⟩ := Results.bind_eq_ok.mp computed
        exact inRange_numeric other computed
      · obtain ⟨read, -, computed⟩ := Results.bind_eq_ok.mp computed
        obtain rfl := Except.ok.inj computed
        trivial

private theorem inRange_unary {operation : UnaryOperation} {scalar : Scalar} (range : scalar.InRange)
    (computed : unary operation scalar config = .ok result) : result.InRange := by
  unfold unary at computed
  split at computed
  · obtain ⟨read, -, computed⟩ := Results.bind_eq_ok.mp computed
    obtain rfl := Except.ok.inj computed
    trivial
  · obtain rfl := Except.ok.inj computed
    exact Decimal.inRange_neg range
  · obtain rfl := Except.ok.inj computed
    refine Decimal.inRange_neg (Number.inRange_integer ?_ ?_) <;> split <;> decide
  · cases computed

/-- Arithmetic on numbers fails only where the result is out of range or the divisor is zero. -/
private theorem numeric_eq_error {failure : Failure Cause} (failed : numeric operation a b config = .error failure) :
    failure = .refused (.outOfRange operation.symbol) ∨
      (failure = .refused .divisionByZero ∧ b.value.isZero = true ∧ (operation = .div ∨ operation = .rem)) ∨
      failure = .overflow ∧ operation = .rem ∧
        (a.value.InRange → b.value.InRange → 2 ^ 62 ≤ a.value.digits + b.value.digits) := by
  cases operation with
  | add =>
    obtain ⟨reason, found, rfl⟩ := Number.arithmetic_rounding_eq_error Decimal.settled_add (Results.map_eq_error.mp failed)
    obtain rfl := Decimal.overflow_of_add found
    exact .inl rfl
  | sub =>
    obtain ⟨reason, found, rfl⟩ := Number.arithmetic_rounding_eq_error Decimal.settled_add (Results.map_eq_error.mp failed)
    obtain rfl := Decimal.overflow_of_add found
    exact .inl rfl
  | mul =>
    obtain ⟨reason, found, rfl⟩ := Number.arithmetic_rounding_eq_error Decimal.settled_mul (Results.map_eq_error.mp failed)
    obtain rfl := Decimal.overflow_of_mul found
    exact .inl rfl
  | div =>
    obtain ⟨reason, found, rfl⟩ := Number.arithmetic_rounding_eq_error Decimal.settled_div (Results.map_eq_error.mp failed)
    rcases Decimal.div_eq_error found with rfl | ⟨rfl, zero⟩
    · exact .inl rfl
    · exact .inr (.inl ⟨rfl, zero, .inl rfl⟩)
  | rem =>
    obtain ⟨cause, found, rfl⟩ | ⟨remainder, found, failed⟩ :=
      Number.arithmetic_eq_error (Results.map_eq_error.mp failed)
    · obtain ⟨rfl, zero⟩ | ⟨rfl, -⟩ := Decimal.rem_eq_error found
      · exact .inr (.inl ⟨rfl, zero, .inr rfl⟩)
      · exact .inr (.inr ⟨rfl, rfl, fun dividend divisor => Decimal.digits_of_rem_overflow dividend divisor found⟩)
    · obtain ⟨rfl, far⟩ := Number.new_eq_error failed
      exact .inr (.inr ⟨rfl, rfl, fun dividend divisor =>
        Decimal.digits_of_round_rem_overflow dividend divisor found far⟩)
  | _ => cases failed

private theorem both_numbers (a b : Number) (config : Config) :
    ∃ value, both (.number a) (.number b) config = .ok value := by
  cases zero : a.isZero <;> simp [both, asTruth, zero, bind, Except.bind, pure, Except.pure]

private theorem either_numbers (a b : Number) (config : Config) :
    ∃ value, either (.number a) (.number b) config = .ok value := by
  cases zero : a.isZero <;> simp [either, asTruth, zero, bind, Except.bind, pure, Except.pure]

/-- The remainder is rounded but not checked. It cannot lie above the range, and below it does. -/
private theorem inRange_rem_iff {remainder : Decimal} (range : a.value.InRange)
    (exact : a.value.rem b.value = .ok remainder)
    (computed : binary .rem (.number a) (.number b) config = .ok result) :
    ∃ value : Number, result = .number value ∧
      (value.value.InRange ↔
        ¬remainder.CarriesOut (max a.precision b.precision) config.rounding ∧
          ¬remainder.Vanishes (max a.precision b.precision) config.rounding) := by
  obtain ⟨value, rounding, rfl⟩ := Results.map_eq_ok.mp computed
  refine ⟨value, rfl, ?_⟩
  have top (nonzero : remainder.isZero = false) : remainder.adjusted ≤ Decimal.maxExponent := by
    have below := Decimal.adjusted_rem_le exact nonzero
    rcases range with zero | near
    · have : a.value.adjusted = 0 := by simp [Decimal.adjusted, zero]
      unfold Decimal.maxExponent
      omega
    · omega
  unfold Number.arithmetic at rounding
  simp only [exact] at rounding
  obtain ⟨rounded, found, same⟩ := Results.bind_eq_ok.mp rounding
  obtain rfl := Except.ok.inj same
  rcases Decimal.round_eq_ok found with rfl | ⟨rfl, high, long⟩
  · exact Decimal.inRange_rounded_iff_of_le top
  · have nonzero : rounded.isZero = false := by
      simpa [Decimal.isZero] using Decimal.mantissa_ne_zero_of_lt_digits long
    have low := top nonzero
    have last := Decimal.exponent_le_adjusted nonzero
    simp only [high, Limits.integerBound, Decimal.maxExponent] at low last
    omega

end Scalar

namespace Number

/-- A text that is not read as a number is refused, or overflows as a numeral in base ten. -/
private theorem parse_eq_error {text : String} {config : Config} {failure : Failure Cause}
    (failed : parse text config = .error failure) :
    failure = .refused (.noConversion text kindName) ∨
      failure = .overflow ∧ config.base = 10 ∧ Decimal.parse text = .error .overflow := by
  unfold parse at failed
  split at failed
  · cases failed
  · split at failed
    · cases failed
    next cause found =>
      obtain rfl := Except.error.inj failed
      cases cause with
      | refused _ => exact .inl rfl
      | overflow => exact .inr ⟨rfl, Decimal.parseIn_overflow found⟩

/-- What every way to a number does with its magnitude. Integers, negations, sums, products, quotients and numerals in
bases other than ten stay within range, and what would leave it is an error. The other three ways stay within it
exactly where the last rounding does not carry out of the top and, for remainders, where the exact result does not lie
below the bottom. An overflow comes of the least exponent in base ten and of remainders of more digits than fit in any
memory. -/
theorem range_kept_iff (config : Config) :
    (∀ value : Int, -(2 ^ 63) ≤ value → value < 2 ^ 63 → (integer value config).value.InRange) ∧
    (∀ text number, parse text config = .ok number →
      (number.value.InRange ↔
        ¬(config.base = 10 ∧ ∃ exact, Decimal.parse text = .ok exact ∧
          exact.CarriesOut config.precision config.rounding))) ∧
    (∀ text failure, parse text config = .error failure →
      failure = .refused (.noConversion text kindName) ∨
        failure = .overflow ∧ config.base = 10 ∧ Decimal.parse text = .error .overflow) ∧
    (∀ operation scalar result, scalar.InRange →
      Scalar.unary operation scalar config = .ok result → result.InRange) ∧
    (∀ operation left right result, operation ≠ .rem →
      Scalar.binary operation left right config = .ok result → result.InRange) ∧
    (∀ (a b : Number) remainder result, a.value.InRange → a.value.rem b.value = .ok remainder →
      Scalar.binary .rem (.number a) (.number b) config = .ok result →
        ∃ value : Number, result = .number value ∧
          (value.value.InRange ↔
            ¬remainder.CarriesOut (max a.precision b.precision) config.rounding ∧
              ¬remainder.Vanishes (max a.precision b.precision) config.rounding)) ∧
    (∀ operation (a b : Number) failure, Scalar.binary operation (.number a) (.number b) config = .error failure →
      failure = .refused (.outOfRange operation.symbol) ∨
        (failure = .refused .divisionByZero ∧ b.value.isZero = true ∧ (operation = .div ∨ operation = .rem)) ∨
        failure = .overflow ∧ operation = .rem ∧
          (a.value.InRange → b.value.InRange → 2 ^ 62 ≤ a.value.digits + b.value.digits)) ∧
    (∀ (number : Number) precision, number.value.InRange →
      ∃ result : Number,
        (number.withPrecision precision config.rounding : Except (Failure Cause) Number) = .ok result ∧
          (result.value.InRange ↔ ¬number.value.CarriesOut precision config.rounding)) := by
  refine ⟨fun value => inRange_integer, fun text number => inRange_parse_iff, fun text failure => parse_eq_error,
    fun operation scalar result => Scalar.inRange_unary,
    fun operation left right result => Scalar.inRange_binary,
    fun a b remainder result => Scalar.inRange_rem_iff, ?_, ?_⟩
  · intro operation a b failure failed
    unfold Scalar.binary at failed
    split at failed
    · obtain ⟨holds, same⟩ := Scalar.both_numbers a b config
      cases same ▸ failed
    · obtain ⟨holds, same⟩ := Scalar.either_numbers a b config
      cases same ▸ failed
    · exact Scalar.numeric_eq_error failed
  · intro number precision range
    exact ⟨_, new_eq (Decimal.holds_of_inRange range) _ _, Decimal.inRange_rounded_iff range⟩

theorem range_kept_with_two_digits :
    (integer 995 { precision := 2 }).value.InRange ∧
      (parse "9.99e1000000" { precision := 2 } = .ok ⟨⟨1, 1000001⟩, 2⟩ ∧
        ((⟨1, 1000001⟩ : Decimal).InRange ↔ ¬(10 = 10 ∧ ∃ exact, Decimal.parse "9.99e1000000" = .ok exact ∧
          exact.CarriesOut 2 .halfEven))) ∧
      (∃ failure, parse "ten" { precision := 2 } = .error failure ∧
        (failure = .refused (.noConversion "ten" kindName) ∨
          failure = .overflow ∧ 10 = 10 ∧ Decimal.parse "ten" = .error .overflow)) ∧
      (Scalar.number ⟨⟨-7, 1000000⟩, 1⟩).InRange ∧
      (Scalar.number ⟨⟨2, 1000000⟩, 1⟩).InRange ∧
      (∃ value : Number, Scalar.number ⟨⟨1, -1000003⟩, 4⟩ = .number value ∧
        (value.value.InRange ↔ ¬(⟨1, -1000003⟩ : Decimal).CarriesOut 4 .halfEven ∧
          ¬(⟨1, -1000003⟩ : Decimal).Vanishes 4 .halfEven)) ∧
      (∃ failure, Scalar.binary .mul (.number ⟨⟨1, 999999⟩, 1⟩) (.number ⟨⟨1, 999999⟩, 1⟩)
          { precision := 2 } = .error failure ∧
        (failure = .refused (.outOfRange BinaryOperation.mul.symbol) ∨
          (failure = .refused .divisionByZero ∧ (⟨1, 999999⟩ : Decimal).isZero = true ∧
            (BinaryOperation.mul = .div ∨ BinaryOperation.mul = .rem)) ∨
          failure = .overflow ∧ BinaryOperation.mul = .rem ∧
            ((⟨1, 999999⟩ : Decimal).InRange → (⟨1, 999999⟩ : Decimal).InRange →
              2 ^ 62 ≤ (⟨1, 999999⟩ : Decimal).digits + (⟨1, 999999⟩ : Decimal).digits))) ∧
      (∃ result : Number, (withPrecision ⟨⟨999, 999998⟩, 3⟩ 2 .halfEven : Except (Failure Cause) Number) = .ok result ∧
        (result.value.InRange ↔ ¬(⟨999, 999998⟩ : Decimal).CarriesOut 2 .halfEven)) := by
  obtain ⟨integers, numerals, failures, unary, binary, remainders, errors, precisions⟩ :=
    range_kept_iff { precision := 2 }
  have read : parse "9.99e1000000" { precision := 2 } = .ok ⟨⟨1, 1000001⟩, 2⟩ := by decide +kernel
  have word : parse "ten" { precision := 2 } = .error (.refused (.noConversion "ten" kindName)) := by decide +kernel
  have square : Scalar.binary .mul (.number ⟨⟨1, 999999⟩, 1⟩) (.number ⟨⟨1, 999999⟩, 1⟩)
      { precision := 2 } = .error (.refused (.outOfRange "*")) := by decide +kernel
  have seven : (Scalar.number ⟨⟨7, 1000000⟩, 1⟩).InRange :=
    show (⟨7, 1000000⟩ : Decimal).InRange by decide +kernel
  refine ⟨integers 995 (by decide) (by decide), ⟨read, numerals _ _ read⟩, ?_, ?_, ?_, ?_, ?_, ?_⟩
  · exact ⟨_, word, failures "ten" _ word⟩
  · exact unary .neg (.number ⟨⟨7, 1000000⟩, 1⟩) _ seven rfl
  · exact binary .add (.number ⟨⟨1, 1000000⟩, 1⟩) (.number ⟨⟨1, 1000000⟩, 1⟩) _ (by decide) (by decide +kernel)
  · exact remainders ⟨⟨1001, -1000003⟩, 4⟩ ⟨⟨1, -1000000⟩, 4⟩ _ _ (by decide +kernel) (by decide +kernel)
      (by decide +kernel)
  · exact ⟨_, square, errors .mul ⟨⟨1, 999999⟩, 1⟩ ⟨⟨1, 999999⟩, 1⟩ _ square⟩
  · exact precisions ⟨⟨999, 999998⟩, 3⟩ 2 (by decide +kernel)

/-- Two digits of 9.99e1000000 are a number beyond the range, and so is an exact remainder of two
numbers near the bottom of it. -/
theorem range_left_by_rounding :
    parse "9.99e1000000" { precision := 2 } = .ok ⟨⟨1, 1000001⟩, 2⟩ ∧
      ¬(⟨1, 1000001⟩ : Decimal).InRange ∧
      (⟨1000000001, -1000005⟩ : Decimal).InRange ∧ (⟨1, -999996⟩ : Decimal).InRange ∧
      Scalar.binary .rem (.number ⟨⟨1000000001, -1000005⟩, 24⟩) (.number ⟨⟨1, -999996⟩, 24⟩) {} =
        .ok (.number ⟨⟨1, -1000005⟩, 24⟩) ∧
      ¬(⟨1, -1000005⟩ : Decimal).InRange ∧
      (⟨999, 999998⟩ : Decimal).InRange ∧
      (withPrecision ⟨⟨999, 999998⟩, 3⟩ 2 .halfEven : Except (Failure Cause) Number) = .ok ⟨⟨1, 1000001⟩, 2⟩ := by
  decide +kernel

end Number

end Dialogue
