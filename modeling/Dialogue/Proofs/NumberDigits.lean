import Dialogue.Proofs.NumberRange
import Dialogue.Script

/-! How many digits numbers have. No number that is read or worked out has more digits than its precision, unless its
exponent is the largest of all, so rounding it to that precision again gives the same number. -/

namespace Dialogue

namespace Decimal

private theorem digits_neg (d : Decimal) : d.neg.digits = d.digits := by simp [digits, neg]

/-- Numerals are rounded to the precision asked for; the sign may come last. -/
private theorem digits_parseIn_le {base precision : Nat} {text : String} {mode : Rounding} {result : Decimal}
    (read : parseIn base text precision mode = .ok result) : result.digits ≤ max precision 1 := by
  unfold parseIn at read
  split at read
  next =>
    obtain ⟨exact, -, rounding⟩ := Results.bind_eq_ok.mp read
    obtain rfl := Except.ok.inj rounding
    exact digits_rounded_le
  next =>
    obtain ⟨numeral, -, read⟩ := Results.bind_eq_ok.mp read
    obtain ⟨unsigned, -, read⟩ := Results.bind_eq_ok.mp read
    obtain ⟨value, checked, read⟩ := Results.bind_eq_ok.mp read
    have settled := settled_of_checked_rounded (inRange_eq_ok.mp checked)
    obtain rfl := Except.ok.inj read
    split
    · rw [digits_neg]
      exact settled.digits
    · exact settled.digits

end Decimal

namespace Number

variable {config : Config} {value : Decimal} {precision : Nat} {mode : Rounding} {number result : Number}
  {text : String}

/-- No more digits than the precision, where a precision of zero counts as one, or the exponent that goes with the least
scale: what rounding leaves alone. -/
def Exact (number : Number) : Prop :=
  number.value.digits ≤ max number.precision 1 ∨ number.value.exponent = Limits.integerBound

theorem Exact.round_eq {ε : Type} (exact : number.Exact) (mode : Rounding) :
    number.value.round number.precision mode = (.ok number.value : Except (Failure ε) Decimal) := if_pos exact

theorem Exact.withPrecision_self {ε : Type} (exact : number.Exact) (mode : Rounding) :
    number.withPrecision number.precision mode = (.ok number : Except (Failure ε) Number) := by
  rw [withPrecision, new, exact.round_eq]
  rfl

theorem exact_rounded : (rounded value precision mode).Exact := .inl Decimal.digits_rounded_le

theorem exact_new {ε : Type} (made : (new value precision mode : Except (Failure ε) Number) = .ok number) :
    number.Exact := by
  obtain ⟨result, found, same⟩ := Results.bind_eq_ok.mp made
  obtain rfl := Except.ok.inj same
  rcases Decimal.round_eq_ok found with rfl | ⟨rfl, least, -⟩
  · exact exact_rounded
  · exact .inr least

theorem precision_of_new {ε : Type} (made : (new value precision mode : Except (Failure ε) Number) = .ok number) :
    number.precision = precision := by
  obtain ⟨result, -, same⟩ := Results.bind_eq_ok.mp made
  obtain rfl := Except.ok.inj same
  rfl

theorem exact_zero : (zero precision).Exact := .inl Decimal.settled_zero.digits

theorem exact_integer {value : Int} : (integer value config).Exact := exact_rounded

theorem Exact.neg (exact : number.Exact) : number.neg.Exact := exact.imp_left (Decimal.digits_neg _).trans_le

theorem exact_parse (read : parse text config = .ok number) : number.Exact := by
  unfold parse at read
  split at read
  next =>
    obtain rfl := Except.ok.inj read
    exact exact_zero
  next =>
    split at read
    next value found =>
      obtain rfl := Except.ok.inj read
      exact .inl (Decimal.digits_parseIn_le found)
    next => cases read

private theorem exact_arithmetic
    {compute : Decimal → Decimal → Nat → Rounding → Except (Failure ArithmeticError) Decimal} {symbol : String}
    {a b : Number} (computed : arithmetic compute symbol a b config = .ok result) : result.Exact := by
  simp only [arithmetic] at computed
  split at computed
  next => exact exact_new computed
  next => cases computed

end Number

namespace Scalar

variable {config : Config} {operation : BinaryOperation} {a b : Number} {scalar left right result : Scalar}

/-- Only numbers have digits. -/
def Exact : Scalar → Prop
  | number value => value.Exact
  | _ => True

theorem exact_zero {precision : Nat} : (number (.zero precision)).Exact := Number.exact_zero

theorem exact_integer {value : Int} : (number (.integer value config)).Exact := Number.exact_integer

theorem exact_text {value : String} : (text value).Exact := trivial

theorem exact_asNumber {number : Number} (exact : scalar.Exact) (read : scalar.asNumber config = .ok number) :
    number.Exact := by
  cases scalar with
  | number value =>
    obtain rfl := Except.ok.inj read
    exact exact
  | text value => exact Number.exact_parse read
  | truth value =>
    obtain rfl := Except.ok.inj read
    exact Number.exact_integer

private theorem exact_numeric (computed : numeric operation a b config = .ok result) : result.Exact := by
  cases operation with
  | add | sub | mul | div | rem =>
    obtain ⟨value, found, rfl⟩ := Results.map_eq_ok.mp computed
    exact Number.exact_arithmetic found
  | _ =>
    obtain rfl := Except.ok.inj computed
    trivial

private theorem exact_textual {text : String} (computed : textual operation text right config = .ok result) :
    result.Exact := by
  cases operation with
  | mul =>
    obtain ⟨count, -, computed⟩ := Results.bind_eq_ok.mp computed
    split at computed
    · obtain rfl := Except.ok.inj computed
      trivial
    · cases computed
  | sub | div | rem => cases computed
  | _ =>
    obtain ⟨read, -, computed⟩ := Results.bind_eq_ok.mp computed
    obtain rfl := Except.ok.inj computed
    trivial

private theorem exact_logical {truth : Bool} (computed : logical operation truth right config = .ok result) :
    result.Exact := by
  unfold logical at computed
  split at computed
  · obtain ⟨number, -, computed⟩ := Results.bind_eq_ok.mp computed
    exact exact_numeric computed
  · obtain ⟨read, -, computed⟩ := Results.bind_eq_ok.mp computed
    obtain rfl := Except.ok.inj computed
    trivial

theorem exact_binary (computed : binary operation left right config = .ok result) : result.Exact := by
  unfold binary at computed
  split at computed
  · obtain ⟨value, -, rfl⟩ := Results.map_eq_ok.mp computed
    trivial
  · obtain ⟨value, -, rfl⟩ := Results.map_eq_ok.mp computed
    trivial
  · split at computed
    · obtain ⟨number, -, computed⟩ := Results.bind_eq_ok.mp computed
      exact exact_numeric computed
    · exact exact_textual computed
    · exact exact_logical computed

theorem exact_unary {operation : UnaryOperation} (exact : scalar.Exact)
    (computed : unary operation scalar config = .ok result) : result.Exact := by
  unfold unary at computed
  split at computed
  · obtain ⟨read, -, computed⟩ := Results.bind_eq_ok.mp computed
    obtain rfl := Except.ok.inj computed
    trivial
  · obtain rfl := Except.ok.inj computed
    exact Number.Exact.neg exact
  · obtain rfl := Except.ok.inj computed
    exact Number.Exact.neg Number.exact_integer
  · cases computed

end Scalar

theorem Literal.exact_scalar {literal : Literal} {config : Config} {value : Scalar}
    (read : literal.scalar config = .ok value) : value.Exact := by
  unfold Literal.scalar at read
  split at read
  · obtain rfl := Except.ok.inj read
    trivial
  · obtain rfl := Except.ok.inj read
    trivial
  · obtain rfl := Except.ok.inj read
    exact Number.exact_integer
  · obtain ⟨number, parsed, rfl⟩ := Results.map_eq_ok.mp (Results.mapError_eq_ok.mp read)
    exact Number.exact_parse parsed
  · obtain ⟨written, -, read⟩ := Results.bind_eq_ok.mp (Results.mapError_eq_ok.mp read)
    obtain ⟨number, made, same⟩ := Results.bind_eq_ok.mp read
    obtain rfl := Except.ok.inj same
    exact Number.exact_new made

end Dialogue
