import Dialogue.Decimal.Arithmetic
import Dialogue.Text.Quoted

/-!
Reading numerals in the bases from two to thirty-six: an optional sign, digits with at most one
point and at least one digit, and in base ten an optional exponent. Blanks around a numeral do not
count.
-/

namespace Dialogue

inductive NumeralError where
  | noDigits
  | invalidDigit (found : Char) (base : Nat)
  | unsupportedBase (base : Nat)
  | exponentOutOfRange
deriving DecidableEq

namespace NumeralError

def text : NumeralError → String
  | noDigits => "no digits"
  | invalidDigit found base => "invalid digit " ++ Text.quoteChar found ++ " for base " ++ toString base
  | unsupportedBase base => "unsupported base " ++ toString base ++ " (expected 2..=36)"
  | exponentOutOfRange => "exponent outside ±" ++ toString Decimal.maxExponent

end NumeralError

structure Numeral where
  negative : Bool
  whole : List Nat
  fraction : List Nat
  exponent : Int
deriving DecidableEq

namespace Numeral

/-- A leading sign and what follows it; without a sign the numeral is positive. -/
def signed : List Char → Bool × List Char
  | '-' :: rest => (true, rest)
  | '+' :: rest => (false, rest)
  | rest => (false, rest)

def digits (base : Nat) : List Char → Except (Failure NumeralError) (List Nat)
  | [] => .ok []
  | c :: rest => do
    let some digit := Digits.value? base c | throw (.refused (.invalidDigit c base))
    return digit :: (← digits base rest)

/-- An exponent has 64 bits, and so has its magnitude, which the least integer overflows. -/
def limitExponent (exponent : Int) : Except (Failure NumeralError) Int := do
  if ¬Machine.Holds exponent then throw (.refused .exponentOutOfRange)
  let magnitude ← Machine.integer exponent.natAbs
  if Decimal.maxExponent < magnitude then throw (.refused .exponentOutOfRange)
  return exponent

/-- The exponent written after the mark, however many digits it has. -/
def readExponent (text : List Char) : Except (Failure NumeralError) Int := do
  let (negative, body) := signed text
  if body.isEmpty then throw (.refused .noDigits)
  let magnitude := Digits.valueOf 10 (← digits 10 body)
  limitExponent (if negative then -magnitude else magnitude)

def isExponentMark (c : Char) : Bool := c == 'e' || c == 'E'

def splitPoint (text : List Char) : List Char × List Char :=
  (text.takeWhile (· != '.'), (text.dropWhile (· != '.')).drop 1)

/-- Takes a numeral apart. Of several faults the base is named first, then the exponent, then the
lack of digits, then the first character that is no digit. -/
def read (base : Nat) (text : String) : Except (Failure NumeralError) Numeral := do
  if base < 2 ∨ 36 < base then throw (.refused (.unsupportedBase base))
  let (negative, body) := signed (Text.trimmed text.toList)
  let mantissa := if base = 10 then body.takeWhile (!isExponentMark ·) else body
  let exponent ←
    match body.drop mantissa.length with
    | [] => pure 0
    | _ :: exponent => readExponent exponent
  let (whole, fraction) := splitPoint mantissa
  if whole.isEmpty && fraction.isEmpty then throw (.refused .noDigits)
  return ⟨negative, ← digits base whole, ← digits base fraction, exponent⟩

end Numeral

namespace Decimal

/-- A result whose leading digit is out of range is reported as an exponent out of range. -/
def inRange (result : Except ArithmeticError Decimal) : Except (Failure NumeralError) Decimal :=
  match result with
  | .ok d => .ok d
  | .error _ => .error (.refused .exponentOutOfRange)

/-- Reads a numeral in base ten. -/
def parse (text : String) : Except (Failure NumeralError) Decimal := do
  let numeral ← Numeral.read 10 text
  let magnitude : Int := Digits.valueOf 10 (numeral.whole ++ numeral.fraction)
  inRange (normal (if numeral.negative then -magnitude else magnitude)
    (numeral.exponent - numeral.fraction.length)).checked

/-- Four digits more than a precision, as far as 32 bits hold them. -/
def guardedDigits (precision : Nat) : Nat := max precision (min (precision + 4) Limits.precisionMax)

/-- The value of a numeral without its sign in a base other than ten. The fraction is divided out with
more digits than the precision, so that the last rounding sees the true value. -/
def unsignedIn (base : Nat) (numeral : Numeral) (precision : Nat) (mode : Rounding) :
    Except (Failure NumeralError) Decimal :=
  let whole := ofInt (Digits.valueOf base numeral.whole)
  if numeral.fraction.isEmpty then .ok whole
  else
    let numerator := ofInt (Digits.valueOf base numeral.fraction)
    let denominator := ofInt (Nat.pow base numeral.fraction.length)
    inRange do
      let fraction ← numerator.div denominator (guardedDigits precision) mode
      whole.add fraction (guardedDigits precision) mode

/-- Reads a numeral in any base and rounds it. The sign is put on after the rounding, save in base ten. -/
def parseIn (base : Nat) (text : String) (precision : Nat) (mode : Rounding) :
    Except (Failure NumeralError) Decimal := do
  if base = 10 then return (← parse text).rounded precision mode
  let numeral ← Numeral.read base text
  let value ← inRange ((← unsignedIn base numeral precision mode).rounded precision mode).checked
  return if numeral.negative then value.neg else value

end Decimal

end Dialogue
