/-!
Digits of naturals. A natural below ten has one digit; every factor of ten adds one. A list of digits
is read from its most significant end.
-/

namespace Dialogue.Digits

/-- How many digits the natural has in base ten; zero has one. -/
def count (n : Nat) : Nat :=
  if n < 10 then 1 else count (n / 10) + 1

def text (n : Nat) : List Char := Nat.toDigits 10 n

/-- The value of a digit in a base of at most thirty-six; letters of either case follow the nine. -/
def value? (base : Nat) (c : Char) : Option Nat :=
  let code := c.toNat
  let digit :=
    if '0' ≤ c ∧ c ≤ '9' then some (code - '0'.toNat)
    else if 'a' ≤ c ∧ c ≤ 'z' then some (code - 'a'.toNat + 10)
    else if 'A' ≤ c ∧ c ≤ 'Z' then some (code - 'A'.toNat + 10)
    else none
  digit.filter (· < base)

def valueOf (base : Nat) (digits : List Nat) : Nat :=
  digits.foldl (fun value digit => value * base + digit) 0

end Dialogue.Digits
