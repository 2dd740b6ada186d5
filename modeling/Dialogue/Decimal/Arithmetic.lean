import Dialogue.Decimal.Rounding

/-!
Arithmetic on decimals. Sum, product and quotient are rounded once to a number of significant digits
and refused where the leading digit leaves the supported range; the remainder is exact. The work is
bounded by the digits that are kept, not by the distance between the exponents.
-/

namespace Dialogue.Decimal

def exactSum (a b : Decimal) : Decimal :=
  let exponent := min a.exponent b.exponent
  normal (a.scaledTo exponent + b.scaledTo exponent) exponent

/-- The sum of two decimals that are not zero, the first with the leading digit at least as high.
Digits of the second below `reach` can only break a tie or a borrow, so a single digit stands in for
a second operand that lies below it altogether. -/
def sumByMagnitude (big small : Decimal) (precision : Nat) : Decimal :=
  let reach := min big.exponent (big.adjusted - max precision 1 - 1) - 2
  if small.adjusted < reach then
    big.exactSum ⟨if small.isNegative then -1 else 1, reach - 1⟩
  else big.exactSum small

def add (a b : Decimal) (precision : Nat) (mode : Rounding) : Except ArithmeticError Decimal :=
  if b.isZero then (a.rounded precision mode).checked
  else if a.isZero then (b.rounded precision mode).checked
  else if b.adjusted ≤ a.adjusted then ((a.sumByMagnitude b precision).rounded precision mode).checked
  else ((b.sumByMagnitude a precision).rounded precision mode).checked

def sub (a b : Decimal) (precision : Nat) (mode : Rounding) : Except ArithmeticError Decimal :=
  a.add b.neg precision mode

def exactProduct (a b : Decimal) : Decimal := normal (a.mantissa * b.mantissa) (a.exponent + b.exponent)

/-- Products far out of range are refused before they are formed. -/
def mul (a b : Decimal) (precision : Nat) (mode : Rounding) : Except ArithmeticError Decimal :=
  if a.isZero || b.isZero then .ok zero
  else if (a.adjusted + b.adjusted).natAbs > maxExponent + 1 then .error .overflow
  else ((a.exactProduct b).rounded precision mode).checked

/-- A quotient with at least two digits more than the precision. Where it does not come out, one
digit is appended that stands for the whole tail and pushes the value off every tie. -/
def guardedQuotient (a b : Decimal) (precision : Nat) : Decimal :=
  let shift := max precision 1 + 2 + b.digits - a.digits
  let scaled := a.mantissa * Int.pow 10 shift
  let whole := scaled.tdiv b.mantissa
  let exponent := a.exponent - b.exponent - shift
  if scaled.tmod b.mantissa = 0 then normal whole exponent
  else
    let tail := if a.isNegative == b.isNegative then 1 else -1
    normal (whole * 10 + tail) (exponent - 1)

def div (a b : Decimal) (precision : Nat) (mode : Rounding) : Except ArithmeticError Decimal :=
  if b.isZero then .error .divisionByZero
  else if a.isZero then .ok zero
  else if (a.adjusted - b.adjusted).natAbs > maxExponent + 1 then .error .overflow
  else ((a.guardedQuotient b precision).rounded precision mode).checked

/-- `base ^ exponent` modulo `modulus`, by repeated squaring. -/
def powMod (base exponent modulus : Nat) : Nat :=
  if exponent = 0 then 1 % modulus
  else
    let half := powMod (base * base % modulus) (exponent / 2) modulus
    if exponent % 2 = 1 then half * base % modulus else half
termination_by exponent
decreasing_by omega

/-- What the quotient toward zero leaves of a dividend that is at least as large as the divisor. Where the dividend ends
further up, its power of ten is reduced before it is formed. -/
def remainder (a b : Decimal) : Decimal :=
  let magnitude := a.mantissa.natAbs
  let modulus := b.mantissa.natAbs
  if b.lastPlace ≤ a.lastPlace then
    let factor := powMod 10 (a.lastPlace - b.lastPlace).toNat modulus
    normal (a.mantissa.sign * (magnitude * factor % modulus : Nat)) b.lastPlace
  else
    let rest := magnitude % (modulus * Nat.pow 10 (b.lastPlace - a.lastPlace).toNat)
    normal (a.mantissa.sign * (rest : Nat)) a.lastPlace

/-- The exact remainder; it has the sign of the dividend. The distance between the exponents is an integer of 64 bits.
-/
def rem (a b : Decimal) : Except (Failure ArithmeticError) Decimal :=
  if b.isZero then .error (.refused .divisionByZero)
  else if a.abs.cmp b.abs = .lt then .ok a
  else do
    let _ ← Machine.integer (a.lastPlace - b.lastPlace).natAbs
    (a.remainder b).held

end Dialogue.Decimal
