import Dialogue.Decimal.Basic

/-!
Writing decimals. Every digit of the mantissa is written, in plain notation where that takes no more
digits than the budget, and in scientific notation otherwise.
-/

namespace Dialogue.Decimal

/-- The budget of a decimal that is written on its own. -/
def displayDigits : Nat := 40

/-- The first digit, a point before the others if there are any, and the power of ten of the first digit, which is a
sum in 64 bits. -/
def scientific {ε : Type} (digits : List Char) (exponent : Int) : Except (Failure ε) (List Char) := do
  let power ← Machine.integer (digits.length - 1 + exponent)
  return digits.take 1 ++ (if digits.length > 1 then '.' :: digits.drop 1 else []) ++ 'e' :: (toString power).toList

/-- The notation of a magnitude that is not zero. Plain notation takes the mantissa and its trailing
zeros, the mantissa alone, or for values below one the digits after the point. -/
def plain? (digits : List Char) (exponent : Int) (budget : Nat) : Option (List Char) :=
  let whole : Int := digits.length + exponent
  if 0 ≤ exponent then
    if whole ≤ budget then some (digits ++ List.replicate exponent.toNat '0') else none
  else if 0 < whole then
    if digits.length ≤ budget then
      some (digits.take whole.toNat ++ '.' :: digits.drop whole.toNat)
    else none
  else if exponent.natAbs ≤ budget then
    some ('0' :: '.' :: List.replicate whole.natAbs '0' ++ digits)
  else none

/-- Writes a decimal with a budget of digits for plain notation; a budget of zero counts as one. -/
def write {ε : Type} (d : Decimal) (budget : Nat) : Except (Failure ε) String :=
  if d.isZero then .ok "0"
  else do
    let digits := Digits.text d.mantissa.natAbs
    let magnitude ←
      match plain? digits d.lastPlace (max budget 1) with
      | some magnitude => pure magnitude
      | none => scientific digits d.lastPlace
    return String.ofList (if d.isNegative then '-' :: magnitude else magnitude)

def text {ε : Type} (d : Decimal) : Except (Failure ε) String := d.write displayDigits

end Dialogue.Decimal
