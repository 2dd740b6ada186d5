import Dialogue.Decimal.Basic
import Dialogue.Text.Blank

/-!
Rounding to a number of significant digits. Whatever the mode, a value goes to one of its two
neighbours with that many digits, and a value that has no more digits stays as it is.
-/

namespace Dialogue

inductive Rounding where
  | halfEven
  | halfUp
  | halfDown
  | towardZero
  | awayFromZero
  | ceiling
  | floor
deriving DecidableEq

namespace Rounding

def all : List Rounding :=
  [halfEven, halfUp, halfDown, towardZero, awayFromZero, ceiling, floor]

def name : Rounding → String
  | halfEven => "half_even"
  | halfUp => "half_up"
  | halfDown => "half_down"
  | towardZero => "toward_zero"
  | awayFromZero => "away_from_zero"
  | ceiling => "ceiling"
  | floor => "floor"

/-- Names are matched without regard to the case of ASCII letters. -/
def ofName? (text : String) : Option Rounding :=
  all.find? fun mode => Text.sameIgnoringCase mode.name text

def unknownText (text : String) : String := "unknown rounding mode: " ++ text

/-- Whether a magnitude that lies strictly between two neighbours goes to the one away from zero.
`half` is the order of its distance from the lower neighbour and half a unit. -/
def goesAway (mode : Rounding) (negative lowerIsEven : Bool) (half : Ordering) : Bool :=
  match mode with
  | halfEven => (half.then (if lowerIsEven then .lt else .gt)) == .gt
  | halfUp => half != .lt
  | halfDown => half == .gt
  | towardZero => false
  | awayFromZero => true
  | ceiling => !negative
  | floor => negative

/-- The quotient of an integer and a positive unit, rounded to an integer. -/
def quotient (mode : Rounding) (value : Int) (unit : Nat) : Int :=
  let lower := value.natAbs / unit
  let rest := value.natAbs % unit
  let away := rest ≠ 0 && mode.goesAway (value < 0) (lower % 2 == 0) (compare (2 * rest) unit)
  value.sign * (lower + if away then 1 else 0 : Nat)

end Rounding

namespace Decimal

/-- Rounded to at most `precision` significant digits; a precision of zero counts as one. -/
def rounded (d : Decimal) (precision : Nat) (mode : Rounding) : Decimal :=
  let kept := max precision 1
  if d.digits ≤ kept then d
  else
    let dropped := d.digits - kept
    normal (mode.quotient d.mantissa (Nat.pow 10 dropped)) (d.exponent + dropped)

/-- Rounds a decimal. The least scale cannot be lowered, so that a decimal that has it keeps its digits; any other one
needs the number of its digits before the point in 64 bits. -/
def round {ε : Type} (d : Decimal) (precision : Nat) (mode : Rounding) : Except (Failure ε) Decimal :=
  if d.digits ≤ max precision 1 ∨ d.exponent = Limits.integerBound then .ok d
  else do
    let _ ← Machine.integer (d.exponent + d.digits)
    return d.rounded precision mode

/-- The integer toward zero, where it fits 64 signed bits. -/
def toInt64? (d : Decimal) : Option Int :=
  if d.isZero ∨ d.adjusted < 0 then some 0
  else if d.adjusted > 18 then none
  else
    let whole :=
      if 0 ≤ d.exponent then d.mantissa * Int.pow 10 d.exponent.toNat
      else d.mantissa.tdiv (Int.pow 10 (-d.exponent).toNat)
    if -Limits.integerBound ≤ whole ∧ whole < Limits.integerBound then some whole else none

end Decimal

end Dialogue
