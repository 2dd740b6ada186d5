import Dialogue.Proofs.LeastExponents
import Dialogue.Proofs.MachineDecimals
import Dialogue.Proofs.NumeralText
import Dialogue.Proofs.RoundedReading

/-! Reading numerals with all operations on integers of 64 bits. One written exponent has no magnitude there, and taking
it overflows. Nothing else does. -/

namespace Dialogue.Machine

open Results

def inRange (result : Except (Failure ArithmeticError) Decimal) : Except (Failure NumeralError) Decimal :=
  result.mapError fun failure => failure.map fun _ => .exponentOutOfRange

def parse (text : String) : Except (Failure NumeralError) Decimal := do
  let numeral ← Numeral.read 10 text
  let magnitude : Int := Digits.valueOf 10 (numeral.whole ++ numeral.fraction)
  let value ← normal (if numeral.negative then -magnitude else magnitude) (numeral.exponent - numeral.fraction.length)
  inRange (checked value)

def unsignedIn (base : Nat) (numeral : Numeral) (precision : Nat) (mode : Rounding) :
    Except (Failure NumeralError) Decimal := do
  let whole ← normal (Digits.valueOf base numeral.whole) 0
  if numeral.fraction.isEmpty then return whole
  else
    let numerator ← normal (Digits.valueOf base numeral.fraction) 0
    let denominator ← normal (Nat.pow base numeral.fraction.length) 0
    inRange do
      let fraction ← div numerator denominator (Decimal.guardedDigits precision) mode
      add whole fraction (Decimal.guardedDigits precision) mode

def parseIn (base : Nat) (text : String) (precision : Nat) (mode : Rounding) : Except (Failure NumeralError) Decimal := do
  if base = 10 then
    let exact ← parse text
    round exact precision mode
  else
    let numeral ← Numeral.read base text
    let unsigned ← unsignedIn base numeral precision mode
    let value ← inRange (settle unsigned precision mode)
    return if numeral.negative then value.neg else value

open Numeral

variable {text : String} {exponent : Int} {base precision : Nat} {mode : Rounding}

section Lengths

variable {negative : Bool} {body core whole fraction mantissa : List Char}

theorem length_of_padded {chars : List Char} (padded : Text.Padded core chars) : core.length ≤ chars.length := by
  cases padded
  simp only [List.length_append]
  omega

private theorem length_of_signed (sign : Signed negative body core) : body.length ≤ core.length := by
  cases sign <;> simp

private theorem length_of_spells (spelled : Spells negative whole fraction exponent core) :
    whole.length ≤ core.length ∧ fraction.length ≤ core.length := by
  obtain ⟨sign, digits, -⟩ := spelled
  have inside := length_of_signed sign
  cases digits <;> simp only [List.length_append, List.length_cons, List.length_nil] at * <;> omega

private theorem length_of_spellsIn {whole fraction : List Nat} (spelled : SpellsIn base negative whole fraction core) :
    whole.length ≤ core.length ∧ fraction.length ≤ core.length := by
  obtain ⟨sign, digits⟩ := spelled
  have inside := length_of_signed sign
  cases digits with
  | whole wholeDigits =>
    have whole := wholeDigits.length_eq
    exact ⟨by omega, Nat.zero_le _⟩
  | pointed wholeDigits fractionDigits =>
    have whole := wholeDigits.length_eq
    have fraction := fractionDigits.length_eq
    simp only [List.length_append, List.length_cons] at inside
    omega

private theorem digits_of_spellsIn {whole fraction : List Nat} (spelled : SpellsIn base negative whole fraction core) :
    (∀ digit ∈ whole, digit < base) ∧ ∀ digit ∈ fraction, digit < base := by
  obtain ⟨-, digits⟩ := spelled
  cases digits with
  | whole wholeDigits => exact ⟨fun _ => lt_base_of_mem wholeDigits, fun _ member => nomatch member⟩
  | pointed wholeDigits fractionDigits =>
    exact ⟨fun _ => lt_base_of_mem wholeDigits, fun _ => lt_base_of_mem fractionDigits⟩

end Lengths

/-- Each digit of a base takes up less than two decimal ones. -/
theorem spans_of_le {value places length : Nat} (small : value ≤ 36 ^ places) (short : places ≤ length) :
    Spans 0 (2 * length + 1) (Decimal.normal value 0) := by
  have bound : value < 10 ^ (2 * places + 1) :=
    calc value ≤ 36 ^ places := small
      _ ≤ (10 ^ 2) ^ places := Nat.pow_le_pow_left (by decide) places
      _ = 10 ^ (2 * places) := by rw [pow_mul]
      _ < 10 ^ (2 * places + 1) := Nat.pow_lt_pow_right (by decide) (by omega)
  have count : Digits.count (value : Int).natAbs ≤ 2 * places + 1 := Digits.count_le_of_lt (Nat.succ_pos _) bound
  apply spans_normal <;> omega

private theorem valueOf_le {digits : List Nat} (least : 2 ≤ base) (most : base ≤ 36)
    (small : ∀ digit ∈ digits, digit < base) :
    Digits.valueOf base digits ≤ 36 ^ digits.length := by
  have bound := Nat.ofDigits_lt_base_pow_length least fun digit member => small digit (List.mem_reverse.mp member)
  rw [List.length_reverse, ← Digits.valueOf_eq] at bound
  exact bound.le.trans (Nat.pow_le_pow_left most _)

theorem inRange_refusing (outcome : Except ArithmeticError Decimal) :
    inRange (Failure.refusing outcome) = Decimal.inRange outcome := by
  cases outcome <;> rfl

/-- The digits of a numeral are digits of its base, and there are not more of them than so many on either side. -/
structure Fits (base length : Nat) (numeral : Numeral) : Prop where
  wholeDigits : ∀ digit ∈ numeral.whole, digit < base
  fractionDigits : ∀ digit ∈ numeral.fraction, digit < base
  wholeLength : numeral.whole.length ≤ length
  fractionLength : numeral.fraction.length ≤ length

section Unsigned

variable {length : Nat} {numeral : Numeral} {d : Decimal}

theorem Fits.spans_whole (fits : Fits base length numeral) (least : 2 ≤ base) (most : base ≤ 36) :
    Spans 0 (2 * length + 1) (Decimal.ofInt (Digits.valueOf base numeral.whole)) :=
  spans_of_le (valueOf_le least most fits.wholeDigits) fits.wholeLength

theorem Fits.spans_numerator (fits : Fits base length numeral) (least : 2 ≤ base) (most : base ≤ 36) :
    Spans 0 (2 * length + 1) (Decimal.ofInt (Digits.valueOf base numeral.fraction)) :=
  spans_of_le (valueOf_le least most fits.fractionDigits) fits.fractionLength

theorem Fits.spans_denominator (fits : Fits base length numeral) (most : base ≤ 36) :
    Spans 0 (2 * length + 1) (Decimal.ofInt (Nat.pow base numeral.fraction.length)) :=
  spans_of_le (Nat.pow_le_pow_left most _) fits.fractionLength

private theorem guardedDigits_le (precision : Nat) : Decimal.guardedDigits precision ≤ precision + 4 := by
  unfold Decimal.guardedDigits
  omega

theorem Fits.spans_unsignedIn (fits : Fits base length numeral) (least : 2 ≤ base) (most : base ≤ 36)
    (read : Decimal.unsignedIn base numeral precision mode = .ok d) :
    Spans (-4 * length - 2 * precision - 20) (2 * length + 6) d := by
  have whole := fits.spans_whole least most
  unfold Decimal.unsignedIn at read
  dsimp only at read
  split at read
  · obtain rfl := Except.ok.inj read
    exact whole.widen (by omega) (by omega)
  · obtain ⟨fraction, quotient, sum⟩ := Results.bind_eq_ok.mp (Decimal.inRange_eq_ok.mp read)
    have part := (fits.spans_numerator least most).div (fits.spans_denominator most) quotient
    have spans := (whole.widen (by have := part.down; omega) (by omega)).add part sum
    have guarded := guardedDigits_le precision
    exact spans.widen (by omega) (by omega)

private theorem unsignedIn_eq (fits : Fits base length numeral) (least : 2 ≤ base) (most : base ≤ 36)
    (room : 6 * length + 2 * precision + 40 < Limits.integerBound) :
    unsignedIn base numeral precision mode = Decimal.unsignedIn base numeral precision mode := by
  have whole := fits.spans_whole least most
  have numerator := fits.spans_numerator least most
  have denominator := fits.spans_denominator most
  have guarded := guardedDigits_le precision
  unfold unsignedIn Decimal.unsignedIn
  dsimp only
  rw [normal_eq whole le_rfl (by omega) (by omega), ok_bind]
  split
  · rfl
  · rw [normal_eq numerator le_rfl (by omega) (by omega), ok_bind,
      normal_eq denominator le_rfl (by omega) (by omega), ok_bind]
    change inRange (div (Decimal.ofInt _) (Decimal.ofInt _) _ _ >>= fun fraction => add (Decimal.ofInt _) fraction _ _) = _
    rw [div_eq numerator denominator (by omega)]
    cases quotient : Decimal.div _ _ (Decimal.guardedDigits precision) mode with
    | error failure => rfl
    | ok fraction =>
      have part := numerator.div denominator quotient
      have sum := @add_eq _ _ _ _ (Decimal.guardedDigits precision) mode (whole.widen part.down (by omega)) part
        (by omega)
      exact (congrArg inRange sum).trans (inRange_refusing _)

/-- A numeral that is read in another base than ten has digits of the base, and each of them is a character. -/
private theorem fits_of_read {numeral : Numeral} (other : base ≠ 10) (read : Numeral.read base text = .ok numeral) :
    2 ≤ base ∧ base ≤ 36 ∧ Fits base text.length numeral := by
  obtain ⟨least, most⟩ := base_of_read read
  obtain ⟨-, core, padded, spelled⟩ := (read_eq_ok_iff least most other).mp read
  have inside := length_of_padded padded
  have lengths := length_of_spellsIn spelled
  rw [String.length_toList] at inside
  have digits := digits_of_spellsIn spelled
  exact ⟨least, most, digits.1, digits.2, by omega, by omega⟩

end Unsigned

section Ten

variable {negative : Bool} {whole fraction core : List Char}

private theorem ofDigitChars_lt {chars : List Char} (digits : Digits.AreDigits chars) :
    Nat.ofDigitChars 10 chars 0 < 10 ^ chars.length := by
  have small : ∀ digit ∈ (chars.map fun c => c.toNat - '0'.toNat).reverse, digit < 10 := by
    intro digit member
    obtain ⟨c, inside, rfl⟩ := List.mem_map.mp (List.mem_reverse.mp member)
    have bounds := Digits.digit_bounds (digits c inside)
    have codes : '0'.toNat = 48 ∧ '9'.toNat = 57 := ⟨rfl, rfl⟩
    omega
  have bound := Nat.ofDigits_lt_base_pow_length (by decide) small
  rwa [List.length_reverse, List.length_map, ← Digits.valueOf_eq, Digits.valueOf_ten] at bound

/-- The magnitude of a numeral in base ten has no more digits than its text has characters. -/
private theorem spans_ofNumeral (spelled : Spells negative whole fraction exponent core)
    (small : exponent.natAbs ≤ Decimal.maxExponent) {length : Nat} (held : core.length ≤ length) :
    Spans (-(Decimal.maxExponent + length)) (Decimal.maxExponent + 2 * length + 1)
      (Decimal.ofNumeral negative whole fraction exponent) := by
  have lengths := length_of_spells spelled
  have bound := (ofDigitChars_lt spelled.areDigits).trans (Nat.pow_lt_pow_right (by decide) (Nat.lt_succ_self _))
  have count := Digits.count_le_of_lt (Nat.succ_pos _) bound
  rw [List.length_append] at count
  have unsigned : (if negative then -(Nat.ofDigitChars 10 (whole ++ fraction) 0 : Int)
      else Nat.ofDigitChars 10 (whole ++ fraction) 0).natAbs = Nat.ofDigitChars 10 (whole ++ fraction) 0 := by
    split <;> omega
  rw [← unsigned] at count
  apply spans_normal <;> omega

end Ten

/-- The digits of what is read in base ten lie close together, and there is room for one more of them. -/
private theorem room_of_held (held : text.length ≤ 2 ^ 60) :
    (Decimal.maxExponent + 2 * text.length + 1 : Int) - -(Decimal.maxExponent + text.length) + 1 <
      Limits.integerBound := by
  unfold Decimal.maxExponent Limits.integerBound
  omega

private theorem parse_eq (held : text.length ≤ 2 ^ 60) : parse text = Decimal.parse text := by
  rw [parse]
  cases found : Numeral.read 10 text with
  | error failure =>
    rw [Decimal.parse, found]
    rfl
  | ok numeral =>
    obtain ⟨negative, whole, fraction, exponent, spelled, small, rfl⟩ := spells_of_read found
    have inside := length_of_padded (Text.padded_trimmed text.toList)
    rw [String.length_toList] at inside
    have spans := spans_ofNumeral spelled small inside
    have lengths := length_of_spells spelled
    unfold Admitted at small
    rw [Decimal.parse_of_read found, ok_bind]
    simp only [ofParts, ← List.map_append, Digits.valueOf_ten, List.length_map]
    have room := room_of_held held
    have formed := @normal_eq NumeralError _ _ _ _ spans (by omega) (by omega) (by omega)
    rw [formed, ok_bind]
    exact (congrArg inRange (checked_eq spans (by omega))).trans (inRange_refusing _)

private theorem spans_parse {d : Decimal} (parsed : Decimal.parse text = .ok d) :
    Spans (-(Decimal.maxExponent + text.length)) (Decimal.maxExponent + 2 * text.length + 1) d := by
  obtain ⟨numeral, found, -⟩ := bind_eq_ok.mp parsed
  obtain ⟨negative, whole, fraction, exponent, spelled, small, rfl⟩ := spells_of_read found
  have inside := length_of_padded (Text.padded_trimmed text.toList)
  rw [String.length_toList] at inside
  rw [Decimal.parse_of_read found, Decimal.inRange_eq_ok] at parsed
  exact (spans_ofNumeral spelled small inside).of_checked parsed

private theorem parseIn_eq (held : text.length ≤ 2 ^ 60) (base : Nat) (counted : precision < 2 ^ 32) (mode : Rounding) :
    parseIn base text precision mode = Decimal.parseIn base text precision mode := by
  rw [parseIn, Decimal.parseIn]
  by_cases ten : base = 10
  · rw [if_pos ten, if_pos ten, parse_eq held]
    cases parsed : Decimal.parse text with
    | error failure => rfl
    | ok d => exact round_eq (spans_parse parsed) (room_of_held held) precision mode
  · rw [if_neg ten, if_neg ten]
    cases found : Numeral.read base text with
    | error failure => rfl
    | ok numeral =>
      obtain ⟨least, most, fits⟩ := fits_of_read ten found
      rw [ok_bind, ok_bind, unsignedIn_eq fits least most (by unfold Limits.integerBound; omega)]
      cases unsigned : Decimal.unsignedIn base numeral precision mode with
      | error failure => rfl
      | ok d =>
        have spans := fits.spans_unsignedIn least most unsigned
        rw [ok_bind, ok_bind, settle_eq spans (by unfold Limits.integerBound; omega), inRange_refusing]

/-- A numeral whose exponent is too far from zero is refused for that, unless taking the magnitude overflows. -/
private theorem parse_of_far {core : List Char} {value : ℚ} (padded : Text.Padded core text.toList)
    (denotes : Denotes exponent value core) (far : Decimal.maxExponent < exponent.natAbs) :
    Decimal.parse text = .error (refusal exponent) := by
  obtain @⟨negative, whole, fraction, _, _, spelled⟩ := denotes
  rw [Decimal.parse, spelled.read_of_not_admitted padded far.not_ge]
  rfl

/-- With all operations on integers of 64 bits a numeral is read as it is without, so that the one that overflows is the
magnitude of the least exponent. Every other exponent that is too far from zero is reported as that. -/
theorem least_exponent_overflows (text : String) :
    (text.length ≤ 2 ^ 60 →
      parse text = Decimal.parse text ∧
        ∀ (base precision : Nat) (mode : Rounding), precision < 2 ^ 32 →
          parseIn base text precision mode = Decimal.parseIn base text precision mode) ∧
      (Decimal.parse text = .error .overflow ↔ MarksLeast (Text.trimmed text.toList)) ∧
      (∀ (base precision : Nat) (mode : Rounding), Decimal.parseIn base text precision mode = .error .overflow ↔
        base = 10 ∧ MarksLeast (Text.trimmed text.toList)) ∧
      ∀ {core : List Char} {exponent : Int} {value : ℚ}, Text.Padded core text.toList → Denotes exponent value core →
        Decimal.maxExponent < exponent.natAbs →
          Decimal.parse text = .error (refusal exponent) ∧
            ∀ (precision : Nat) (mode : Rounding), Decimal.parseIn 10 text precision mode = .error (refusal exponent) := by
  refine ⟨fun held => ⟨parse_eq held, ?_⟩, Decimal.parse_overflow_iff, fun _ _ _ => Decimal.parseIn_overflow_iff, ?_⟩
  · exact fun base precision mode counted => parseIn_eq held base counted mode
  · intro core exponent value padded denotes far
    have refused := parse_of_far padded denotes far
    refine ⟨refused, fun precision mode => ?_⟩
    rw [Decimal.parseIn, if_pos rfl, refused]
    rfl

private theorem denotes_power_of_ten (exponent : Int) :
    Denotes exponent (amount ['1'] [] exponent) ('1' :: 'e' :: spelledExponent exponent) := by
  have digits : Mantissa ['1'] [] ['1'] := .whole (Digits.areDigits_text 1) (by decide)
  exact .mk (.mk (.bare (['1'] ++ _)) digits (.present (.inl rfl) (power_spelled exponent)))

/-- Next to the least integer nothing overflows. -/
theorem least_exponent_overflows_beside :
    "1e-9223372036854775807".length ≤ 2 ^ 60 ∧ Decimal.maxExponent < (-9223372036854775807 : Int).natAbs ∧
      parse "1e-9223372036854775807" = Decimal.parse "1e-9223372036854775807" ∧
      parseIn 10 "1e-9223372036854775807" 24 .halfEven = Decimal.parseIn 10 "1e-9223372036854775807" 24 .halfEven ∧
      Decimal.parse "1e-9223372036854775807" = .error (.refused .exponentOutOfRange) := by
  have held : "1e-9223372036854775807".length ≤ 2 ^ 60 := by decide +kernel
  have far : Decimal.maxExponent < (-9223372036854775807 : Int).natAbs := by decide +kernel
  have padded : Text.Padded ('1' :: 'e' :: spelledExponent (-9223372036854775807)) "1e-9223372036854775807".toList :=
    Text.padded_self _
  obtain ⟨sound, -, -, refused⟩ := least_exponent_overflows "1e-9223372036854775807"
  obtain ⟨ten, any⟩ := sound held
  exact ⟨held, far, ten, any 10 24 .halfEven (by decide), (refused padded (denotes_power_of_ten _) far).1⟩

/-- The exponent whose magnitude takes one bit more than there are. -/
theorem least_exponent_blind_spot :
    Denotes (-9223372036854775808) (amount ['1'] [] (-9223372036854775808)) "1e-9223372036854775808".toList ∧
      Decimal.maxExponent < (-9223372036854775808 : Int).natAbs ∧
      Decimal.parse "1e-9223372036854775808" = .error .overflow :=
  ⟨denotes_power_of_ten _, by decide +kernel, by decide +kernel⟩

end Dialogue.Machine
