import Dialogue.Proofs.NumeralGrammar

/-! Numerals in base ten that are spelled from their parts. Reading such a text gives the parts back,
whatever the sign, the two groups of digits and the exponent are. -/

namespace Dialogue

namespace Digits

theorem areDigits_text (n : Nat) : AreDigits (text n) :=
  fun _ member => Nat.isDigit_of_mem_toDigits (by decide) (by decide) member

theorem areDigits_zeros (k : Nat) : AreDigits (List.replicate k '0') := by
  intro c member
  rw [List.eq_of_mem_replicate member]
  rfl

theorem length_text (n : Nat) : (text n).length = count n := by
  refine le_antisymm ?_ ?_
  · exact (Nat.length_toDigits_le_iff (by decide) (count_pos n)).mpr (lt_pow_count n)
  · apply count_le_of_lt Nat.length_toDigits_pos
    exact (Nat.length_toDigits_le_iff (by decide) Nat.length_toDigits_pos).mp le_rfl

theorem head_text_ne_zero {n : Nat} (positive : 0 < n) : (text n).head? ≠ some '0' := by
  induction n using Nat.strongRecOn with
  | ind n ih =>
    rw [text, Nat.toDigits_eq_if (by decide)]
    split
    next small => interval_cases n <;> decide
    next large =>
      rw [List.head?_append_of_ne_nil _ Nat.toDigits_ne_nil]
      exact ih (n / 10) (by omega) (by omega)

end Digits

namespace Numeral

open Digits

/-- An exponent spelled with a sign where it is negative. -/
def spelledExponent (exponent : Int) : List Char := (toString exponent).toList

private theorem spelledExponent_eq (exponent : Int) :
    spelledExponent exponent = (if exponent < 0 then ['-'] else []) ++ text exponent.natAbs := by
  rw [spelledExponent, Int.toString_eq_repr, Int.repr_eq_if]
  split
  next positive =>
    rw [if_neg (by omega), Nat.toList_repr, (by omega : exponent.toNat = exponent.natAbs)]
    rfl
  next negative =>
    rw [if_pos (by omega), String.toList_append, Nat.toList_repr, (by omega : (-exponent).toNat = exponent.natAbs)]
    rfl

private theorem signed_minus (negative : Bool) (rest : List Char) :
    Signed negative rest ((if negative then ['-'] else []) ++ rest) := by
  cases negative with
  | false => exact .bare rest
  | true => exact .minus rest

theorem power_spelled (exponent : Int) : Power exponent (spelledExponent exponent) := by
  have sign := signed_minus (decide (exponent < 0)) (text exponent.natAbs)
  have power := Power.mk sign (areDigits_text exponent.natAbs) Nat.toDigits_ne_nil
  have value : Nat.ofDigitChars 10 (text exponent.natAbs) 0 = exponent.natAbs := Nat.ofDigitChars_ten_toDigits
  have same : (if exponent < 0 then -(exponent.natAbs : Int) else exponent.natAbs) = exponent := by
    split <;> omega
  simpa only [value, same, decide_eq_true_eq, ← spelledExponent_eq] using power

end Numeral

/-- The parts that a numeral in base ten is spelled from: a sign, digits, perhaps a point with digits
after it and perhaps an exponent within range. -/
structure Spelling where
  negative : Bool
  whole : List Char
  fraction : Option (List Char) := none
  exponent : Option Int := none
  wholeDigits : Digits.AreDigits whole
  fractionDigits : Digits.AreDigits (fraction.getD [])
  nonempty : whole ≠ [] ∨ fraction.getD [] ≠ []
  range : ∀ power ∈ exponent, power.natAbs ≤ Decimal.maxExponent

namespace Spelling

open Digits Numeral

variable (spelling : Spelling)

def mantissa : List Char := spelling.whole ++ spelling.fraction.elim [] ('.' :: ·)

def tail : List Char := spelling.exponent.elim [] ('e' :: spelledExponent ·)

def text : List Char := (if spelling.negative then ['-'] else []) ++ (spelling.mantissa ++ spelling.tail)

/-- The numeral that the text is. -/
def numeral : Numeral where
  negative := spelling.negative
  whole := spelling.whole.map fun c => c.toNat - '0'.toNat
  fraction := (spelling.fraction.getD []).map fun c => c.toNat - '0'.toNat
  exponent := spelling.exponent.getD 0

theorem mantissa_written :
    Mantissa spelling.whole (spelling.fraction.getD []) spelling.mantissa := by
  obtain ⟨_, whole, fraction, _, wholeDigits, fractionDigits, nonempty, _⟩ := spelling
  cases fraction with
  | none => simpa [mantissa] using Mantissa.whole wholeDigits (nonempty.resolve_right (not_not.mpr rfl))
  | some digits => exact .pointed wholeDigits fractionDigits nonempty

private theorem tail_written : Scale (spelling.exponent.getD 0) spelling.tail := by
  unfold tail
  cases spelling.exponent with
  | none => exact .absent
  | some power => exact .present (.inl rfl) (power_spelled power)

private theorem spells : Spells spelling.negative spelling.whole (spelling.fraction.getD []) (spelling.exponent.getD 0)
    spelling.text :=
  ⟨signed_minus _ _, spelling.mantissa_written, spelling.tail_written⟩

theorem mem_mantissa {c : Char} (member : c ∈ spelling.mantissa) : c.isDigit = true ∨ c = '.' :=
  spelling.mantissa_written.mem member

theorem small : (spelling.exponent.getD 0).natAbs ≤ Decimal.maxExponent := by
  have range := spelling.range
  cases power : spelling.exponent with
  | none => exact Nat.zero_le _
  | some value => exact range value power

/-- Reading a spelled numeral gives its parts back. -/
theorem read_text : Numeral.read 10 (String.ofList spelling.text) = .ok spelling.numeral := by
  have padded : Text.Padded spelling.text (String.ofList spelling.text).toList := by
    rw [String.toList_ofList]
    exact Text.padded_self _
  exact spelling.spells.read_eq padded (spelling.small)

end Spelling

end Dialogue
