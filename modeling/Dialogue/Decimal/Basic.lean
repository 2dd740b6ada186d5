import Dialogue.Decimal.Digits
import Dialogue.Machine

/-!
Decimals: an integer mantissa times a power of ten. In normal form the mantissa does not end in a
zero, and zero has the exponent zero, so equal values have one representation. What 64 bits hold of
an exponent is its opposite, the scale.
-/

namespace Dialogue

structure Decimal where
  mantissa : Int
  /-- The power of ten of the last mantissa digit. -/
  exponent : Int
deriving DecidableEq

inductive ArithmeticError where
  | divisionByZero
  | overflow
deriving DecidableEq

namespace Decimal

/-- The largest power of ten, up or down, that the leading digit of a checked result may have. -/
def maxExponent : Nat := 1000000

def zero : Decimal := ⟨0, 0⟩

/-- The decimal of value `mantissa * 10 ^ exponent` in normal form. -/
def normal (mantissa exponent : Int) : Decimal :=
  if mantissa = 0 then zero
  else if mantissa % 10 = 0 then normal (mantissa / 10) (exponent + 1)
  else ⟨mantissa, exponent⟩
termination_by mantissa.natAbs
decreasing_by omega

/-- A decimal in normal form whose scale may have become too small. -/
def held {ε : Type} (d : Decimal) : Except (Failure ε) Decimal :=
  if d.exponent ≤ Limits.integerBound then .ok d else .error .overflow

/-- A decimal from outside. The least exponent has no opposite and stands for the one after it. -/
def ofParts {ε : Type} (mantissa exponent : Int) : Except (Failure ε) Decimal :=
  held (normal mantissa (max exponent (1 - Limits.integerBound)))

/-- The exponent as it is read off the scale; the opposite of the least scale is one too large. -/
def lastPlace (d : Decimal) : Int := min d.exponent (Limits.integerBound - 1)

def ofInt (value : Int) : Decimal := normal value 0

def isZero (d : Decimal) : Bool := d.mantissa == 0

def isNegative (d : Decimal) : Bool := d.mantissa < 0

def sign (d : Decimal) : Int := d.mantissa.sign

def abs (d : Decimal) : Decimal := ⟨d.mantissa.natAbs, d.exponent⟩

def neg (d : Decimal) : Decimal := ⟨-d.mantissa, d.exponent⟩

/-- Significant digits of the mantissa; zero has one. -/
def digits (d : Decimal) : Nat := Digits.count d.mantissa.natAbs

/-- The power of ten of the leading digit; zero for zero. -/
def adjusted (d : Decimal) : Int :=
  if d.isZero then 0 else d.exponent + (d.digits - 1 : Int)

def scaledTo (d : Decimal) (exponent : Int) : Int :=
  d.mantissa * Int.pow 10 (d.exponent - exponent).toNat

def compareMagnitudes (a b : Decimal) : Ordering :=
  let exponent := min a.exponent b.exponent
  compare (a.scaledTo exponent).natAbs (b.scaledTo exponent).natAbs

/-- Signs first, then the positions of the leading digits; digits are compared only where the
leading digits stand at the same power of ten. -/
def cmp (a b : Decimal) : Ordering :=
  let signs := compare a.sign b.sign
  if signs ≠ .eq ∨ a.isZero then signs
  else
    let magnitudes := (compare a.adjusted b.adjusted).then (a.compareMagnitudes b)
    if a.isNegative then magnitudes.swap else magnitudes

def checked (d : Decimal) : Except ArithmeticError Decimal :=
  if !d.isZero && d.adjusted.natAbs > maxExponent then .error .overflow else .ok d

end Decimal

namespace ArithmeticError

def text : ArithmeticError → String
  | divisionByZero => "division by zero"
  | overflow => "magnitude beyond 10^" ++ toString Decimal.maxExponent

end ArithmeticError

end Dialogue
