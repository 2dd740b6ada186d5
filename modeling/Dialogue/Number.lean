import Dialogue.Config
import Dialogue.Decimal.Notation
import Dialogue.Decimal.Numeral

/-!
Numbers: decimals with a precision of their own, to which their results are rounded.
-/

namespace Dialogue

structure Number where
  value : Decimal
  precision : Nat
deriving DecidableEq

namespace Number

def kindName : String := "Number"

/-- A decimal rounded to a precision. -/
def new {ε : Type} (value : Decimal) (precision : Nat) (mode : Rounding) : Except (Failure ε) Number := do
  return ⟨← value.round precision mode, precision⟩

/-- A decimal rounded to a precision, where it is clear that nothing overflows. -/
def rounded (value : Decimal) (precision : Nat) (mode : Rounding) : Number :=
  ⟨value.rounded precision mode, precision⟩

def zero (precision : Nat) : Number := ⟨.zero, precision⟩

def integer (value : Int) (config : Config) : Number :=
  rounded (.ofInt value) config.precision config.rounding

def ofBool (value : Bool) (config : Config) : Number := integer (if value then 1 else 0) config

/-- Reads a number in the active base; a blank text is zero. -/
def parse (text : String) (config : Config) : Except (Failure Cause) Number :=
  if (Text.trim text).isEmpty then .ok (zero config.precision)
  else
    match Decimal.parseIn config.base text config.precision config.rounding with
    | .ok value => .ok ⟨value, config.precision⟩
    | .error failure => .error (failure.map fun _ => .noConversion text kindName)

def isZero (number : Number) : Bool := number.value.isZero

def neg (number : Number) : Number := ⟨number.value.neg, number.precision⟩

def withPrecision {ε : Type} (number : Number) (precision : Nat) (mode : Rounding) : Except (Failure ε) Number :=
  new number.value precision mode

/-- Written within the digits that the settings allow for plain notation. -/
def text {ε : Type} (number : Number) (config : Config) : Except (Failure ε) String := do
  (← number.value.round number.precision config.rounding).write config.maxDigits

/-- The integer toward zero; beyond 64 bits it ends at the bound on its side. -/
def toInt (number : Number) : Int :=
  number.value.toInt64?.getD (if number.value.isNegative then -Limits.integerBound else Limits.integerBound - 1)

/-- What is wrong with an operation on numbers. -/
def fault (symbol : String) : ArithmeticError → Cause
  | .divisionByZero => .divisionByZero
  | .overflow => .outOfRange symbol

/-- The result of an arithmetic operation, rounded to the larger precision of the operands. -/
def arithmetic (compute : Decimal → Decimal → Nat → Rounding → Except (Failure ArithmeticError) Decimal)
    (symbol : String) (a b : Number) (config : Config) : Except (Failure Cause) Number :=
  let precision := max a.precision b.precision
  match compute a.value b.value precision config.rounding with
  | .ok value => new value precision config.rounding
  | .error failure => .error (failure.map (fault symbol))

end Number

end Dialogue
