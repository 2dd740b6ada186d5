import Dialogue.Decimal.Rounding

/-!
The circle constant by Machin's identity, `π = 16 atan (1/5) - 4 atan (1/239)`, in fixed point with
ten digits more than are asked for.
-/

namespace Dialogue.Decimal

/-- Digits carried beyond the precision to absorb what the series truncate. -/
def guardDigits : Nat := 10

/-- The terms of an arctangent series after the one whose power is given, each cut to an integer.
The power loses the factor `square` at every term, and the signs alternate. -/
def arctanTail (square power divisor : Nat) : Int :=
  if _ : power < square ∨ square < 2 then 0
  else
    let next := power / square
    let term := next / (divisor + 2)
    (-term : Int) - arctanTail square next (divisor + 2)
termination_by power
decreasing_by exact Nat.div_lt_self (by omega) (by omega)

/-- `atan (1 / x)` in units of `1 / unity`. -/
def arctanInverse (x unity : Nat) : Int :=
  (unity / x : Nat) + arctanTail (x * x) (unity / x) 1

/-- π rounded to `precision` significant digits, a tie to the even neighbour. -/
def pi (precision : Nat) : Decimal :=
  let scale := max precision 1 + guardDigits
  let unity := Nat.pow 10 scale
  (normal ((arctanInverse 5 unity * 4 - arctanInverse 239 unity) * 4) (-scale)).rounded precision .halfEven

end Dialogue.Decimal
