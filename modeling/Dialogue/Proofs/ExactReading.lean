import Dialogue.Proofs.DecimalValues
import Dialogue.Proofs.NumberRange
import Dialogue.Proofs.NumeralGrammar
import Mathlib.Tactic.FieldSimp

/-! Reading decimals. A text is read exactly when it is a numeral between blanks whose exponent and value
are within range, and what is read is the value of the numeral and nothing near it. -/

namespace Dialogue

namespace Numeral

/-- The number that the digits on both sides of the point stand for, scaled by the exponent. -/
def amount (whole fraction : List Char) (exponent : Int) : ℚ :=
  (Nat.ofDigitChars 10 whole 0 + Nat.ofDigitChars 10 fraction 0 / 10 ^ fraction.length) * 10 ^ exponent

/-- A numeral with its exponent and its value. -/
inductive Denotes : Int → ℚ → List Char → Prop where
  | mk {negative : Bool} {whole fraction text : List Char} {exponent : Int}
      (spelled : Spells negative whole fraction exponent text) :
      Denotes exponent (if negative then -amount whole fraction exponent else amount whole fraction exponent) text

/-- Without its point the mantissa is as many powers of ten too large as there are digits after it. -/
private theorem amount_eq (whole fraction : List Char) (exponent : Int) :
    amount whole fraction exponent =
      Nat.ofDigitChars 10 (whole ++ fraction) 0 * (10 : ℚ) ^ (exponent - fraction.length) := by
  rw [Nat.ofDigitChars_append, Nat.ofDigitChars_eq_ofDigitChars_zero, zpow_sub₀ (by norm_num), zpow_natCast, amount]
  push_cast
  field_simp

end Numeral

namespace Decimal

open Numeral

variable {text : String} {d : Decimal} {negative : Bool} {whole fraction : List Char} {exponent : Int}

/-- The decimal of a numeral, whether it is within range or not. -/
def ofNumeral (negative : Bool) (whole fraction : List Char) (exponent : Int) : Decimal :=
  normal (if negative then -(Nat.ofDigitChars 10 (whole ++ fraction) 0 : Int)
    else Nat.ofDigitChars 10 (whole ++ fraction) 0) (exponent - fraction.length)

theorem toRat_ofNumeral (negative : Bool) (whole fraction : List Char) (exponent : Int) :
    (ofNumeral negative whole fraction exponent).toRat =
      if negative then -amount whole fraction exponent else amount whole fraction exponent := by
  rw [ofNumeral, toRat_normal, amount_eq]
  split <;> simp

theorem parse_of_read (read : Numeral.read 10 text = .ok (Numeral.ofParts negative whole fraction exponent)) :
    parse text = inRange (ofNumeral negative whole fraction exponent).checked := by
  simp only [parse, read, Numeral.ofParts, bind, Except.bind, ← List.map_append, Digits.valueOf_ten, List.length_map]
  rfl

/-- Exactly the numerals within range are read, each as the one decimal of its value. -/
theorem parse_eq_ok_iff :
    parse text = .ok d ↔
      ∃ core exponent value, Text.Padded core text.toList ∧ Denotes exponent value core ∧
        exponent.natAbs ≤ maxExponent ∧ Within value ∧ d.Normal ∧ d.toRat = value := by
  constructor
  · intro read
    obtain ⟨numeral, found, -⟩ := Results.bind_eq_ok.mp read
    obtain ⟨negative, whole, fraction, exponent, spelled, admitted, rfl⟩ := spells_of_read found
    rw [parse_of_read found, inRange_eq_ok] at read
    obtain ⟨rfl, range⟩ := inRange_of_checked read
    have value := toRat_ofNumeral negative whole fraction exponent
    refine ⟨_, exponent, _, Text.padded_trimmed _, .mk spelled, admitted, ?_, normal_is_normal .., value⟩
    rw [← value]
    exact inRange_iff_toRat.mp range
  · rintro ⟨core, exponent, value, padded, @⟨negative, whole, fraction, _, _, spelled⟩, small, within, written, same⟩
    have value := toRat_ofNumeral negative whole fraction exponent
    have unique : d = ofNumeral negative whole fraction exponent :=
      written.eq_of_toRat_eq (normal_is_normal ..) (same.trans value.symm)
    rw [← same, unique] at within
    rw [parse_of_read (spelled.read_eq padded small), inRange_eq_ok, unique]
    exact checked_of_inRange (inRange_iff_toRat.mpr within)

end Decimal

end Dialogue
