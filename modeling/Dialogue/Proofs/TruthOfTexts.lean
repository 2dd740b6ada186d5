import Dialogue.Proofs.BuiltDecimals
import Dialogue.Proofs.LeastExponents
import Dialogue.Proofs.NotationRoundTrip
import Dialogue.Proofs.RoundedReading
import Dialogue.Scalar

/-! Truth values of texts that were written from other scalars. Numbers are written in base ten and read in any base,
so their texts may have another value there or none. But reading makes no zero of a numeral with another digit than
zero. -/

namespace Dialogue

namespace Rounding

private theorem significant_eq_zero_iff (mode : Rounding) (precision : Nat) (x : ℚ) :
    mode.significant precision x = 0 ↔ x = 0 := by
  rw [← compare_eq_iff_eq, compare_significant_zero, compare_eq_iff_eq]

end Rounding

namespace Digits

variable {base : Nat} {digits : List Nat}

private theorem valueOf_eq_zero_iff (positive : base ≠ 0) : valueOf base digits = 0 ↔ ∀ digit ∈ digits, digit = 0 := by
  induction digits using List.reverseRecOn with
  | nil => simp [valueOf]
  | append_singleton first last ih =>
    have split : valueOf base (first ++ [last]) = valueOf base first * base + last := by
      simp [valueOf]
    simp [split, positive, ih, or_imp, forall_and]

end Digits

namespace Decimal

open Numeral Rounding

variable {base precision : Nat} {mode : Rounding} {text : String} {numeral : Numeral} {d : Decimal}

private theorem isZero_ofInt {value : Nat} : (ofInt value).isZero = true ↔ value = 0 := by
  rw [ofInt, isZero_normal, decide_eq_true_eq, Int.natCast_eq_zero]

private theorem partOf_eq_zero_iff {fraction : List Nat} (positive : base ≠ 0) :
    partOf base fraction = 0 ↔ Digits.valueOf base fraction = 0 := by
  have power : (base : ℚ) ^ fraction.length ≠ 0 := pow_ne_zero _ (by exact_mod_cast positive)
  rw [partOf, ← Digits.valueOf_eq, div_eq_zero_iff, or_iff_left power, Nat.cast_eq_zero]

/-- Neither the quotient that the fraction is nor the sum with what stands before it is rounded to zero or away from
it. -/
private theorem isZero_unsignedIn_iff (positive : base ≠ 0) (found : unsignedIn base numeral precision mode = .ok d) :
    d.isZero = true ↔ ∀ digit ∈ numeral.whole ++ numeral.fraction, digit = 0 := by
  simp only [List.mem_append, or_imp, forall_and, ← Digits.valueOf_eq_zero_iff positive]
  unfold unsignedIn at found
  dsimp only at found
  split at found
  next nothing =>
    obtain rfl := Except.ok.inj found
    rw [List.isEmpty_iff] at nothing
    simp [isZero_ofInt, nothing, Digits.valueOf]
  next =>
    obtain ⟨part, quotient, sum⟩ := Results.bind_eq_ok.mp (inRange_eq_ok.mp found)
    have fraction :=
      (gives_fraction (Nat.pos_of_ne_zero positive) numeral.fraction (guardedDigits precision) mode).toRat_eq quotient
    have written := normal_div quotient
    have value := (gives_add (normal_ofInt _) written (guardedDigits precision) mode).toRat_eq sum
    have least : 0 ≤ part.toRat := by
      rw [fraction]
      exact significant_nonneg mode _ (partOf_nonneg base _)
    rw [← toRat_eq_zero_iff, value, significant_eq_zero_iff, toRat_ofInt, Int.cast_natCast,
      add_eq_zero_iff_of_nonneg (Nat.cast_nonneg _) least, fraction, significant_eq_zero_iff, partOf_eq_zero_iff positive,
      Nat.cast_eq_zero]

private theorem isZero_neg : d.neg.isZero = d.isZero := by
  simp [neg, isZero]

/-- A numeral is read as zero where all its digits are zeros and nowhere else. -/
private theorem isZero_parseIn (parsed : parseIn base text precision mode = .ok d) :
    ∃ numeral, Numeral.read base text = .ok numeral ∧
      (d.isZero = true ↔ ∀ digit ∈ numeral.whole ++ numeral.fraction, digit = 0) := by
  unfold parseIn at parsed
  split at parsed
  next ten =>
    subst ten
    obtain ⟨exact, found, rounded⟩ := Results.bind_eq_ok.mp parsed
    obtain rfl := Except.ok.inj rounded
    obtain ⟨numeral, read, found⟩ := Results.bind_eq_ok.mp found
    obtain ⟨rfl, -⟩ := inRange_of_checked (inRange_eq_ok.mp found)
    refine ⟨numeral, read, ?_⟩
    rw [isZero_rounded, isZero_normal, ← Digits.valueOf_eq_zero_iff (by decide : 10 ≠ 0), decide_eq_true_eq]
    split <;> omega
  next other =>
    obtain ⟨numeral, read, found⟩ := Results.bind_eq_ok.mp parsed
    obtain ⟨value, unsigned, result⟩ := Results.bind_eq_ok.mp found
    obtain ⟨rounded, passed, result⟩ := Results.bind_eq_ok.mp result
    obtain rfl := Except.ok.inj result
    obtain ⟨rfl, -⟩ := inRange_of_checked (inRange_eq_ok.mp passed)
    have positive : base ≠ 0 := by
      have least := (base_of_read read).1
      omega
    refine ⟨numeral, read, ?_⟩
    rw [← isZero_unsignedIn_iff positive unsigned]
    split
    · rw [isZero_neg, isZero_rounded]
    · rw [isZero_rounded]

end Decimal

namespace Numeral

open Digits

variable {base : Nat} {negative : Bool} {whole fraction core : List Char} {exponent : Int} {text : String}
  {numeral : Numeral} {c : Char}

theorem Spells.mem (spelled : Spells negative whole fraction exponent core) (member : c ∈ whole ++ fraction) :
    c ∈ core ∧ c.isDigit = true := by
  refine ⟨?_, spelled.areDigits c member⟩
  obtain ⟨sign, digits, power⟩ := spelled
  refine sign.mem (List.mem_append_left _ ?_)
  cases digits with
  | whole => simpa using member
  | pointed =>
    rcases List.mem_append.mp member with inWhole | inFraction
    · exact List.mem_append_left _ inWhole
    · exact List.mem_append_right _ (List.mem_cons_of_mem _ inFraction)

/-- Only the figure zero stands for zero, whatever the base. -/
private theorem ne_zero_of_stands {digit : Nat} (stands : Stands base c digit) (other : c ≠ '0') : digit ≠ 0 := by
  rintro rfl
  have code := (alphabet_eq_some_iff.mp stands.2).2
  rw [toNat_toLower, if_pos (by decide : 0 < 10)] at code
  split_ifs at code
  · omega
  · exact other (Char.toNat_inj.mp code)

/-- Neither a sign nor a point. -/
private theorem ne_of_alphanumeric (letter : c.isAlphanum = true) (mark : Char) (none : mark.isAlphanum = false) :
    c ≠ mark :=
  fun same => by simp [same, none] at letter

theorem Signed.mem_body {body : List Char} (sign : Signed negative body core) (member : c ∈ core)
    (letter : c.isAlphanum = true) : c ∈ body := by
  cases sign with
  | bare => exact member
  | plus | minus => exact (List.mem_cons.mp member).resolve_left (ne_of_alphanumeric letter _ rfl)

private theorem mem_of_padded {chars : List Char} (padded : Text.Padded core chars) (shown : Text.isBlank c = false) :
    c ∈ chars ↔ c ∈ core := by
  obtain ⟨blankBefore, blankAfter⟩ := padded
  simp only [List.mem_append]
  constructor
  · rintro ((before | inside) | after)
    · exact absurd (blankBefore c before) (by simp [shown])
    · exact inside
    · exact absurd (blankAfter c after) (by simp [shown])
  · intro inside
    exact .inl (.inr inside)

/-- Outside base ten every figure and every letter is a digit, an exponent mark too. -/
private theorem exists_ne_zero_of_read (ten : base ≠ 10) (read : Numeral.read base text = .ok numeral)
    (member : c ∈ text.toList) (shown : Text.isBlank c = false) (letter : c.isAlphanum = true) (other : c ≠ '0') :
    ∃ digit ∈ numeral.whole ++ numeral.fraction, digit ≠ 0 := by
  obtain ⟨least, most⟩ := base_of_read read
  obtain ⟨-, core, padded, sign, digits⟩ := (read_eq_ok_iff least most ten).mp read
  have inside := (mem_of_padded padded shown).mp member
  have noPoint := ne_of_alphanumeric letter '.' rfl
  obtain ⟨digit, present, stands⟩ := (digits.mem (sign.mem_body inside letter)).resolve_right noPoint
  exact ⟨digit, present, ne_zero_of_stands stands other⟩

/-- Whatever base a numeral in base ten is read in, a digit other than zero stays one. -/
theorem Spells.exists_ne_zero (spelled : Spells negative whole fraction exponent text.toList)
    (member : c ∈ whole ++ fraction) (other : c ≠ '0') (read : Numeral.read base text = .ok numeral) :
    ∃ digit ∈ numeral.whole ++ numeral.fraction, digit ≠ 0 := by
  obtain ⟨inside, figure⟩ := spelled.mem member
  by_cases ten : base = 10
  · subst ten
    have padded := Text.padded_self text.toList
    have admitted : Admitted exponent := by
      by_contra refused
      rw [spelled.read_of_not_admitted padded refused] at read
      cases read
    rw [spelled.read_eq padded admitted] at read
    obtain rfl := Except.ok.inj read
    refine ⟨c.toNat - '0'.toNat, ?_, ?_⟩
    · rw [ofParts, ← List.map_append]
      exact List.mem_map_of_mem member
    · have low := (digit_bounds figure).1
      have apart : c.toNat ≠ '0'.toNat := fun same => other (Char.toNat_inj.mp same)
      omega
  · exact exists_ne_zero_of_read ten read inside (digit_shown figure) (by simp [Char.isAlphanum, figure]) other

end Numeral

namespace Decimal

open Numeral

variable {d : Decimal}

private theorem exists_figure_ne_zero (nonzero : d.isZero = false) : ∃ c ∈ d.figures, c ≠ '0' := by
  have positive : 0 < d.mantissa.natAbs := Int.natAbs_pos.mpr (by simpa [isZero] using nonzero)
  have first := Digits.head_text_ne_zero positive
  change d.figures.head? ≠ some '0' at first
  cases shape : d.figures with
  | nil => exact absurd shape d.figures_ne_nil
  | cons c rest => exact ⟨c, List.mem_cons_self, fun zero => first (by rw [shape, zero]; rfl)⟩

/-- The mantissa is written without a gap, whatever zeros stand around it. -/
private theorem figures_subset_plainSpelling (d : Decimal) :
    d.figures ⊆ d.plainSpelling.whole ++ d.plainSpelling.fraction.getD [] := by
  unfold plainSpelling
  split_ifs
  · simp [padded]
  · simp [pointed]
  · simp [sunk]

/-- The parts that the exponential notation of any decimal is written in, however far from zero its exponent is. -/
private theorem mantissa_scientific (d : Decimal) :
    Mantissa (d.figures.take 1) (d.figures.drop 1)
      (d.figures.take 1 ++ if d.figures.length > 1 then '.' :: d.figures.drop 1 else []) := by
  have first : d.figures.take 1 ≠ [] := by simp [d.figures_ne_nil]
  have wholeDigits : Digits.AreDigits (d.figures.take 1) := fun c member =>
    d.figures_are_digits c (List.mem_of_mem_take member)
  split
  next =>
    exact .pointed wholeDigits (fun c member => d.figures_are_digits c (List.mem_of_mem_drop member)) (.inl first)
  next single =>
    rw [List.append_nil, List.drop_of_length_le (Nat.not_lt.mp single)]
    exact .whole wholeDigits first

/-- 64 bits hold the scale. -/
def Scaled (d : Decimal) : Prop := -Limits.integerBound < d.exponent ∧ d.exponent ≤ Limits.integerBound

instance (d : Decimal) : Decidable d.Scaled := inferInstanceAs (Decidable (_ ∧ _))

/-- The decimal whose mantissa and exponent are written; only that of the least scale is another one. -/
def shown (d : Decimal) : Decimal := ⟨d.mantissa, d.lastPlace⟩

private theorem isZero_shown : d.shown.isZero = d.isZero := rfl

private theorem adjusted_shown_le : d.shown.adjusted ≤ d.adjusted := by
  have last := d.lastPlace_le
  have same : d.shown.digits = d.digits := rfl
  simp only [adjusted, isZero_shown, same]
  split
  · exact Int.le_refl 0
  · exact Int.add_le_add_right last _

private theorem lt_adjusted_shown (low : -Limits.integerBound < d.exponent) (nonzero : d.isZero = false) :
    -Limits.integerBound < d.shown.adjusted := by
  have last : -Limits.integerBound < d.lastPlace := lt_min low (by decide)
  exact last.trans_le (exponent_le_adjusted (d := d.shown) nonzero)

/-- The text is that of what is shown, in plain notation or with the power of ten of the first digit. -/
private theorem write_eq {ε : Type} (nonzero : d.isZero = false) (budget : Nat) :
    (d.write budget : Except (Failure ε) String) =
      (if d.shown.plainDigits ≤ max budget 1 then .ok d.shown.plainSpelling.mantissa
        else scientific d.figures d.lastPlace) >>= fun magnitude =>
          .ok (String.ofList (if d.isNegative then '-' :: magnitude else magnitude)) := by
  have plain := plain?_eq (d := d.shown) (max budget 1)
  change plain? (Digits.text d.mantissa.natAbs) d.lastPlace (max budget 1) = _ at plain
  unfold write
  simp only [nonzero, plain, Bool.false_eq_true, if_false]
  split_ifs <;> rfl

/-- What is written of a decimal that is not zero is a numeral with all figures of the mantissa before the exponent, and
the exponent is none or that of the leading digit. -/
theorem write_spells {ε : Type} {text : String} (nonzero : d.isZero = false) {budget : Nat}
    (written : (d.write budget : Except (Failure ε) String) = .ok text) :
    ∃ whole fraction exponent, Spells d.isNegative whole fraction exponent text.toList ∧
      d.figures ⊆ whole ++ fraction ∧ (exponent = 0 ∨ exponent = d.shown.adjusted) := by
  rw [write_eq nonzero] at written
  have sign (magnitude : List Char) :
      Signed d.isNegative magnitude (if d.isNegative then '-' :: magnitude else magnitude) := by
    cases d.isNegative with
    | false => exact .bare magnitude
    | true => exact .minus magnitude
  by_cases fits : d.shown.plainDigits ≤ max budget 1
  · rw [if_pos fits] at written
    obtain rfl := Except.ok.inj written
    rw [String.toList_ofList]
    refine ⟨_, _, _, .mk ?_ d.shown.plainSpelling.mantissa_written .absent, d.shown.figures_subset_plainSpelling, .inl rfl⟩
    rw [List.append_nil]
    exact sign _
  · rw [if_neg fits] at written
    obtain ⟨magnitude, found, same⟩ := Results.bind_eq_ok.mp written
    obtain ⟨power, summed, found⟩ := Results.bind_eq_ok.mp found
    obtain rfl := Except.ok.inj same
    obtain rfl := Except.ok.inj found
    obtain rfl := Machine.eq_of_integer summed
    rw [String.toList_ofList]
    refine ⟨_, _, _, .mk (sign _) d.mantissa_scientific (.present (.inl rfl) (power_spelled _)), ?_, .inr ?_⟩
    · rw [List.take_append_drop]
      exact List.Subset.refl _
    · exact adjusted_eq (d := d.shown) nonzero

/-- The text of a decimal that is not zero is read as another such decimal in every base, or not at all. -/
private theorem isZero_parseIn_write {ε : Type} {base precision budget : Nat} {mode : Rounding} {value : Decimal}
    {text : String}
    (nonzero : d.isZero = false) (written : (d.write budget : Except (Failure ε) String) = .ok text)
    (parsed : parseIn base text precision mode = .ok value) : value.isZero = false := by
  obtain ⟨whole, fraction, exponent, spelled, all, -⟩ := write_spells nonzero written
  obtain ⟨c, figure, other⟩ := exists_figure_ne_zero nonzero
  obtain ⟨numeral, read, zeros⟩ := isZero_parseIn parsed
  obtain ⟨digit, present, positive⟩ := spelled.exists_ne_zero (all figure) other read
  rw [← Bool.not_eq_true, zeros]
  exact fun none => positive (none digit present)

/-- The least exponent of all is never written. -/
private theorem parseIn_write_ne_overflow {ε : Type} {base precision budget : Nat} {mode : Rounding} {text : String}
    (low : -Limits.integerBound < d.exponent) (nonzero : d.isZero = false)
    (written : (d.write budget : Except (Failure ε) String) = .ok text) :
    parseIn base text precision mode ≠ .error .overflow := by
  intro failed
  obtain ⟨-, overflows⟩ := parseIn_overflow failed
  obtain ⟨whole, fraction, exponent, spelled, -, last⟩ := write_spells nonzero written
  have above : -Limits.integerBound < exponent := by
    rcases last with rfl | rfl
    · decide
    · exact lt_adjusted_shown low nonzero
  by_cases admitted : Admitted exponent
  · have found := spelled.read_eq (Text.padded_self text.toList) admitted
    unfold parse at overflows
    rw [found] at overflows
    exact inRange_error overflows rfl
  · have refused := spelled.read_of_not_admitted (Text.padded_self text.toList) admitted
    unfold parse at overflows
    rw [refused, refusal, if_neg above.ne'] at overflows
    cases overflows

/-- Writing fails for nothing but an exponent of the leading digit that 64 bits do not hold. -/
private theorem write_eq_error {ε : Type} {budget : Nat} {failure : Failure ε}
    (failed : (d.write budget : Except (Failure ε) String) = .error failure) :
    failure = .overflow ∧ d.isZero = false ∧ ¬Machine.Holds d.shown.adjusted := by
  have nonzero : d.isZero = false := by
    by_contra zero
    simp only [write, Bool.not_eq_false] at failed zero
    rw [if_pos zero] at failed
    cases failed
  rw [write_eq nonzero] at failed
  rcases Results.bind_eq_error.mp failed with failed | ⟨_, -, impossible⟩
  · split at failed
    · cases failed
    · rcases Results.bind_eq_error.mp failed with failed | ⟨_, -, impossible⟩
      · obtain ⟨out, rfl⟩ := Machine.integer_eq_error failed
        have leading := adjusted_eq (d := d.shown) nonzero
        exact ⟨rfl, nonzero, leading ▸ out⟩
      · cases impossible
  · cases impossible

/-- A rounding moves the last digit up at most. -/
private theorem exponent_le_rounded (d : Decimal) (precision : Nat) (mode : Rounding) :
    d.exponent ≤ (d.rounded precision mode).exponent := by
  by_cases short : d.digits ≤ max precision 1
  · rw [rounded_of_digits_le short]
  · have long := Nat.not_le.mp short
    rw [rounded_of_lt_digits long]
    exact (Int.le_add_of_nonneg_right (Int.natCast_nonneg _)).trans (exponent_le_normal (quotient_ne_zero long) _)

private theorem rounded_zero (precision : Nat) (mode : Rounding) : zero.rounded precision mode = zero := by
  have single : zero.digits = 1 := by decide +kernel
  exact rounded_of_digits_le (by omega)

/-- The text of zero is zero in every base. -/
private theorem parseIn_zero {base : Nat} (least : 2 ≤ base) (most : base ≤ 36) (precision : Nat) (mode : Rounding) :
    parseIn base "0" precision mode = .ok zero := by
  by_cases ten : base = 10
  · subst ten
    have exact : parse "0" = .ok zero := by decide +kernel
    rw [parseIn, if_pos rfl, exact]
    exact congrArg Except.ok (rounded_zero precision mode)
  · have stands : Digits.Stands base '0' 0 := ⟨by omega, rfl⟩
    have spelled : SpellsIn base false [0] [] "0".toList := .mk (.bare _) (.whole (.cons stands .nil) (by decide))
    have read : Numeral.read base "0" = .ok ⟨false, [0], [], 0⟩ :=
      (read_eq_ok_iff least most ten).mpr ⟨rfl, _, Text.padded_self _, spelled⟩
    have value : unsignedIn base ⟨false, [0], [], 0⟩ precision mode = .ok zero := by
      have nothing : ofInt (Digits.valueOf base [0]) = zero := by simp [Digits.valueOf, ofInt, normal]
      simp only [unsignedIn, List.isEmpty_nil, if_true, nothing]
    simp only [parseIn, ten, if_false, read, value, bind, Except.bind, rounded_zero]
    rfl

end Decimal

namespace Scalar

open Numeral

variable {config : Config} {text : String} {d : Decimal} {number : Number} {c : Char}

private theorem trim_of_shown (shown : ∀ c ∈ text.toList, Text.isBlank c = false) : Text.trim text = text := by
  rw [Text.trim, (Text.padded_self text.toList).trimmed_eq shown, String.ofList_toList]

/-- A text that is neither nothing nor the word says what it is read as. -/
theorem saysFalse_of_other (shown : ∀ c ∈ text.toList, Text.isBlank c = false) (something : text.isEmpty = false)
    (other : Text.sameIgnoringCase text "false" = false) :
    saysFalse text config = match Decimal.parseIn config.base text config.precision config.rounding with
      | .ok value => .ok value.isZero
      | .error (.refused _) => .ok false
      | .error .overflow => .error .overflow := by
  rw [saysFalse, trim_of_shown shown, something, other, Number.parse, trim_of_shown shown, something]
  rcases Decimal.parseIn config.base text config.precision config.rounding with (_ | _) | _ <;> rfl

private theorem not_empty_of_mem (member : c ∈ text.toList) : text.isEmpty = false := by
  rw [← Bool.not_eq_true, String.isEmpty_iff]
  rintro rfl
  cases member

private theorem saysFalse_false (config : Config) : saysFalse "false" config = .ok true := by
  have word : Text.sameIgnoringCase (Text.trim "false") "false" = true := by decide
  simp [saysFalse, word]

/-- In the bases that have all its letters the word for what is true is a number, and one that is not zero. -/
private theorem saysFalse_true (config : Config) : saysFalse "true" config = .ok false := by
  rw [saysFalse_of_other (List.forall_iff_forall_mem.mp (by decide)) (by decide) (by decide)]
  by_cases ten : config.base = 10
  · have refused : Decimal.parse "true" = .error (.refused .noDigits) := by decide +kernel
    rw [ten, Decimal.parseIn, if_pos rfl, refused]
    rfl
  · split
    next value parsed =>
      obtain ⟨numeral, read, zeros⟩ := Decimal.isZero_parseIn parsed
      obtain ⟨digit, present, positive⟩ := exists_ne_zero_of_read ten read (by decide : 't' ∈ "true".toList)
        (by decide) (by decide) (by decide)
      have nonzero : value.isZero = false := by
        rw [← Bool.not_eq_true, zeros]
        exact fun none => positive (none digit present)
      rw [nonzero]
    next => rfl
    next overflows => exact absurd (Decimal.parseIn_overflow overflows).1 ten

private theorem saysFalse_write {ε : Type} {budget : Nat} (low : -Limits.integerBound < d.exponent)
    (least : 2 ≤ config.base)
    (most : config.base ≤ 36) (written : (d.write budget : Except (Failure ε) String) = .ok text) :
    saysFalse text config = .ok d.isZero := by
  cases zero : d.isZero with
  | true =>
    rw [Decimal.write, if_pos zero] at written
    obtain rfl := Except.ok.inj written
    rw [saysFalse_of_other (List.forall_iff_forall_mem.mp (by decide)) (by decide) (by decide),
      Decimal.parseIn_zero least most]
    rfl
  | false =>
    obtain ⟨whole, fraction, exponent, spelled, all, -⟩ := Decimal.write_spells zero written
    obtain ⟨c, figure, -⟩ := Decimal.exists_figure_ne_zero zero
    obtain ⟨member, digit⟩ := spelled.mem (all figure)
    rw [saysFalse_of_other spelled.shown (not_empty_of_mem member) (not_word_of_figure member digit)]
    split
    next parsed => rw [Decimal.isZero_parseIn_write zero written parsed]
    next => rfl
    next overflows => exact absurd overflows (Decimal.parseIn_write_ne_overflow low zero written)

/-- Only numbers have a scale. -/
def Scaled : Scalar → Prop
  | .number value => value.value.Scaled
  | _ => True

/-- Only the leading digit of a number can stand so high that 64 bits do not hold the power of ten above it. -/
def Towers : Scalar → Prop
  | .number value => Limits.integerBound ≤ value.value.adjusted + 1
  | _ => False

/-- The power of ten above the leading digit is too large, if 64 bits do not hold it. -/
private theorem le_of_not_holds (low : -Limits.integerBound < d.exponent) (out : ¬Machine.Holds (d.adjusted + 1)) :
    Limits.integerBound ≤ d.adjusted + 1 := by
  by_contra below
  refine out ⟨?_, not_le.mp below⟩
  cases zero : d.isZero with
  | true =>
    simp only [Decimal.adjusted, zero, if_true]
    decide
  | false =>
    have leading := Decimal.exponent_le_adjusted zero
    omega

/-- What a number is rounded to before it is written. -/
structure Presented (number : Number) (value : Decimal) : Prop where
  isZero : value.isZero = number.value.isZero
  last : number.value.exponent ≤ value.exponent
  leading : value.isZero = false → value.adjusted ≤ number.value.adjusted + 1

private theorem presented_of_round {ε : Type} {value : Decimal} {precision : Nat} {mode : Rounding}
    (found : (number.value.round precision mode : Except (Failure ε) Decimal) = .ok value) : Presented number value := by
  rcases Decimal.round_eq_ok found with rfl | ⟨rfl, -⟩
  · refine ⟨Decimal.isZero_rounded, Decimal.exponent_le_rounded .., fun nonzero => ?_⟩
    rw [Decimal.isZero_rounded] at nonzero
    rw [Decimal.adjusted_rounded nonzero]
    split <;> omega
  · exact ⟨rfl, le_rfl, fun _ => Int.le_add_one le_rfl⟩

/-- The text of a number is as true as the number, and overflows only where its leading digit stands too high. -/
private theorem truth_survives_text_of_number (scaled : number.value.Scaled) (least : 2 ≤ config.base)
    (most : config.base ≤ 36) :
    (∃ text, (Scalar.number number).asText config = .ok text ∧
        (Scalar.text text).asTruth config = (Scalar.number number).asTruth config) ∨
      (Scalar.number number).asText config = .error .overflow ∧ (Scalar.number number).Towers := by
  have unfolded : (Scalar.number number).asText config =
      number.value.round number.precision config.rounding >>= (·.write config.maxDigits) := rfl
  rw [unfolded]
  cases rounding : (number.value.round number.precision config.rounding : Except (Failure Cause) Decimal) with
  | error failure =>
    obtain ⟨rfl, out⟩ := Decimal.round_eq_error rounding
    exact .inr ⟨rfl, le_of_not_holds scaled.1 out⟩
  | ok value =>
    obtain ⟨zero, last, leading⟩ := presented_of_round rounding
    have low := scaled.1.trans_le last
    rw [Results.ok_bind]
    cases written : (value.write config.maxDigits : Except (Failure Cause) String) with
    | ok text =>
      refine .inl ⟨text, rfl, ?_⟩
      simp only [asTruth, saysFalse_write low least most written, zero, Number.isZero]
      rfl
    | error failure =>
      obtain ⟨rfl, nonzero, out⟩ := Decimal.write_eq_error written
      refine .inr ⟨rfl, ?_⟩
      by_contra below
      have above := Decimal.lt_adjusted_shown low nonzero
      have shown := value.adjusted_shown_le
      have carried := leading nonzero
      exact out ⟨above.le, by simp only [Towers] at below; omega⟩

/-- The text of a scalar is as true as the scalar, and there is one unless the leading digit of a number stands too
high. In particular no base reads the text of a decimal that is not zero as zero. -/
theorem truth_survives_text (scalar : Scalar) (config : Config) (least : 2 ≤ config.base) (most : config.base ≤ 36)
    (scaled : scalar.Scaled) :
    ((∃ text, scalar.asText config = .ok text ∧ (Scalar.text text).asTruth config = scalar.asTruth config) ∨
        scalar.asText config = .error .overflow ∧ scalar.Towers) ∧
      ∀ (d : Decimal) (budget base precision : Nat) (mode : Rounding) (text : String) (value : Decimal),
        d.isZero = false → (d.write budget : Except (Failure Cause) String) = .ok text →
          Decimal.parseIn base text precision mode = .ok value → value.isZero = false := by
  refine ⟨?_, fun d budget base precision mode text value nonzero written parsed =>
    Decimal.isZero_parseIn_write nonzero written parsed⟩
  cases scalar with
  | number number => exact truth_survives_text_of_number scaled least most
  | text value => exact .inl ⟨value, rfl, rfl⟩
  | truth value =>
    refine .inl ⟨truthText value, rfl, ?_⟩
    cases value with
    | false => exact congrArg ((!·) <$> ·) (saysFalse_false config)
    | true => exact congrArg ((!·) <$> ·) (saysFalse_true config)

/-- In base sixteen the exponent of a number is read as digits after its point. -/
theorem truth_survives_text_in_hexadecimal :
    let config : Config := { base := 16, precision := 5, maxDigits := 3 }
    let scalar : Scalar := .number ⟨⟨25, 6⟩, 5⟩
    2 ≤ config.base ∧ config.base ≤ 36 ∧ scalar.Scaled ∧ scalar.asText config = .ok "2.5e7" ∧
      Decimal.parseIn config.base "2.5e7" config.precision config.rounding = .ok ⟨23689, -4⟩ ∧
      (Scalar.text "2.5e7").asTruth config = scalar.asTruth config := by
  intro config scalar
  have written : scalar.asText config = .ok "2.5e7" := by decide +kernel
  have least : 2 ≤ config.base := by decide
  have most : config.base ≤ 36 := by decide
  have scaled : (⟨25, 6⟩ : Decimal).Scaled := by decide
  obtain ⟨text, shown, survives⟩ | ⟨overflows, -⟩ := (truth_survives_text scalar config least most scaled).1
  · obtain rfl := Except.ok.inj (written.symm.trans shown)
    exact ⟨least, most, scaled, written, by decide +kernel, survives⟩
  · cases written.symm.trans overflows

/-- Eleven times the largest power of ten of 64 bits is not zero. The power of ten of its leading digit overflows before
it is written. -/
theorem truth_lost_to_text :
    (Scalar.number ⟨⟨11, 9223372036854775807⟩, 24⟩).Scaled ∧
      (Scalar.number ⟨⟨11, 9223372036854775807⟩, 24⟩).asTruth {} = .ok true ∧
      (Scalar.number ⟨⟨11, 9223372036854775807⟩, 24⟩).asText {} = .error .overflow ∧
      (do (Scalar.text (← (Scalar.number ⟨⟨11, 9223372036854775807⟩, 24⟩).asText {})).asTruth {}) ≠
        (Scalar.number ⟨⟨11, 9223372036854775807⟩, 24⟩).asTruth {} := by
  have overflows : (Scalar.number ⟨⟨11, 9223372036854775807⟩, 24⟩).asText {} = .error .overflow := by decide +kernel
  have scaled : (⟨11, 9223372036854775807⟩ : Decimal).Scaled := by decide
  refine ⟨scaled, by decide +kernel, overflows, fun same => ?_⟩
  rw [overflows] at same
  cases same

end Scalar

end Dialogue
