import Dialogue.Decimal.Numeral
import Dialogue.Proofs.DecimalForms
import Dialogue.Proofs.Results
import Mathlib.Data.List.DropRight

/-! The grammar of numerals in base ten: a sign that may be left out, digits with at most one point among
them, and an exponent that may be left out. Reading a text finds the parts of a numeral exactly where the
grammar has them between blanks. -/

namespace Dialogue

namespace Digits

/-- All characters are ASCII digits. -/
def AreDigits (text : List Char) : Prop := ∀ c ∈ text, c.isDigit = true

theorem areDigits_append {first second : List Char} :
    AreDigits (first ++ second) ↔ AreDigits first ∧ AreDigits second := by
  simp only [AreDigits, List.mem_append, or_imp, forall_and]

theorem digit_bounds {c : Char} (digit : c.isDigit = true) : '0'.toNat ≤ c.toNat ∧ c.toNat ≤ '9'.toNat := by
  simp only [Char.isDigit, Bool.and_eq_true, decide_eq_true_eq, UInt32.le_iff_toNat_le] at digit
  exact digit

private theorem isDigit_of_bounds {c : Char} (low : '0' ≤ c) (high : c ≤ '9') : c.isDigit = true := by
  simp only [Char.isDigit, Bool.and_eq_true, decide_eq_true_eq]
  exact ⟨low, high⟩

theorem ne_of_digit {c : Char} (other : Char) (digit : c.isDigit = true) (none : other.isDigit = false) : c ≠ other :=
  fun same => by simp [same, none] at digit

private theorem head_ne_of_digits {text : List Char} (digits : AreDigits text) (other : Char)
    (none : other.isDigit = false) : text.head? ≠ some other := by
  intro first
  exact ne_of_digit _ (digits _ (List.mem_of_mem_head? first)) none rfl

theorem digit_shown {c : Char} (digit : c.isDigit = true) : Text.isBlank c = false := by
  have ⟨low, high⟩ := digit_bounds digit
  have zero : '0'.toNat = 48 := rfl
  have nine : '9'.toNat = 57 := rfl
  simp only [Text.isBlank, Text.Ranges.contains, Text.blanks, List.any_cons, List.any_nil, Bool.or_false,
    Bool.or_eq_false_iff, Bool.and_eq_false_iff, decide_eq_false_iff_not]
  omega

/-- Letters stand for ten or more, so base ten has no other digits than the ASCII ones. -/
private theorem value?_ten_eq_some_iff {c : Char} {digit : Nat} :
    value? 10 c = some digit ↔ c.isDigit = true ∧ digit = c.toNat - '0'.toNat := by
  have zero : '0'.toNat = 48 := rfl
  have nine : '9'.toNat = 57 := rfl
  unfold value?
  dsimp only
  split
  next inside =>
    have digitChar := isDigit_of_bounds inside.1 inside.2
    obtain ⟨low, high⟩ := digit_bounds digitChar
    rw [Option.filter_some, if_pos (by simp only [decide_eq_true_eq]; omega), Option.some.injEq]
    simp [digitChar, eq_comm]
  next outside =>
    refine iff_of_false (fun found => ?_) fun written => outside (digit_bounds written.1)
    obtain ⟨letter, small⟩ := Option.filter_eq_some_iff.mp found
    rw [decide_eq_true_eq] at small
    split at letter
    · cases letter
      omega
    · split at letter
      · cases letter
        omega
      · cases letter

/-- The value that a list of digit characters stands for. -/
theorem valueOf_ten (text : List Char) :
    valueOf 10 (text.map fun c => c.toNat - '0'.toNat) = Nat.ofDigitChars 10 text 0 := by
  simp only [valueOf, List.foldl_map, Nat.ofDigitChars_eq_foldl, Nat.mul_comm]

end Digits

namespace Text

variable {core text : List Char}

theorem dropWhile_of_shown (shown : ∀ c ∈ core.head?, isBlank c = false) : core.dropWhile isBlank = core := by
  cases core with
  | nil => rfl
  | cons c rest => rw [List.dropWhile_cons, if_neg (by simp [shown c rfl])]

/-- A text with blanks before and after it. -/
inductive Padded (core : List Char) : List Char → Prop where
  | mk {before after : List Char} (blankBefore : ∀ c ∈ before, isBlank c = true)
      (blankAfter : ∀ c ∈ after, isBlank c = true) : Padded core (before ++ core ++ after)

theorem Padded.trimmed_eq (padded : Padded core text) (shown : ∀ c ∈ core, isBlank c = false) :
    trimmed text = core := by
  obtain @⟨before, after, blankBefore, blankAfter⟩ := padded
  have blankReversed : ∀ c ∈ after.reverse, isBlank c = true := fun c member => blankAfter c (List.mem_reverse.mp member)
  rw [trimmed, List.append_assoc, List.dropWhile_append_of_pos blankBefore]
  by_cases empty : core = []
  · simp [empty, List.dropWhile_eq_nil_iff.mpr blankAfter]
  · have front : (core ++ after).dropWhile isBlank = core ++ after := by
      apply dropWhile_of_shown
      intro c first
      rw [List.head?_append_of_ne_nil _ empty] at first
      exact shown c (List.mem_of_mem_head? first)
    have back : core.reverse.dropWhile isBlank = core.reverse :=
      dropWhile_of_shown fun c last => shown c (List.mem_reverse.mp (List.mem_of_mem_head? last))
    rw [front, List.reverse_append, List.dropWhile_append_of_pos blankReversed, back, List.reverse_reverse]

theorem padded_trimmed (text : List Char) : Padded (trimmed text) text := by
  have back : trimmed text ++ (text.dropWhile isBlank).rtakeWhile isBlank = text.dropWhile isBlank :=
    List.rdropWhile_append_rtakeWhile
  have all : text.takeWhile isBlank ++ trimmed text ++ (text.dropWhile isBlank).rtakeWhile isBlank = text := by
    rw [List.append_assoc, back, List.takeWhile_append_dropWhile]
  conv => rhs; rw [← all]
  exact .mk (fun _ => List.mem_takeWhile_imp) fun _ => List.mem_rtakeWhile_imp

theorem padded_self (core : List Char) : Padded core core := by
  have none : ∀ c ∈ ([] : List Char), isBlank c = true := fun _ member => nomatch member
  simpa using @Padded.mk core _ _ none none

/-- Trimming what was trimmed leaves it alone. -/
theorem trimmed_trimmed (text : List Char) : trimmed (trimmed text) = trimmed text := by
  have first : (trimmed text).dropWhile isBlank = trimmed text := by
    refine dropWhile_of_shown fun c leading => ?_
    obtain ⟨rest, all⟩ := List.rdropWhile_prefix isBlank (text.dropWhile isBlank)
    change trimmed text ++ rest = _ at all
    have shown := List.head?_dropWhile_not isBlank text
    rw [← all, List.head?_append, leading] at shown
    simpa using shown
  rw [trimmed, first, trimmed, List.reverse_reverse, List.dropWhile_idempotent]

end Text

namespace Numeral

open Digits

/-- A sign may stand before what it belongs to. -/
inductive Signed : Bool → List Char → List Char → Prop where
  | bare (body : List Char) : Signed false body body
  | plus (body : List Char) : Signed false body ('+' :: body)
  | minus (body : List Char) : Signed true body ('-' :: body)

/-- Digits, with a point before, among or after them if there is any. -/
inductive Mantissa : List Char → List Char → List Char → Prop where
  | whole {whole : List Char} (wholeDigits : AreDigits whole) (nonempty : whole ≠ []) : Mantissa whole [] whole
  | pointed {whole fraction : List Char} (wholeDigits : AreDigits whole) (fractionDigits : AreDigits fraction)
      (nonempty : whole ≠ [] ∨ fraction ≠ []) : Mantissa whole fraction (whole ++ '.' :: fraction)

/-- The digits of an exponent, with or without a sign. -/
inductive Power : Int → List Char → Prop where
  | mk {negative : Bool} {body text : List Char} (sign : Signed negative body text) (digits : AreDigits body)
      (nonempty : body ≠ []) :
      Power (if negative then -(Nat.ofDigitChars 10 body 0 : Int) else Nat.ofDigitChars 10 body 0) text

/-- Without a mark the exponent is zero. -/
inductive Scale : Int → List Char → Prop where
  | absent : Scale 0 []
  | present {exponent : Int} {mark : Char} {text : List Char} (marked : mark = 'e' ∨ mark = 'E')
      (power : Power exponent text) : Scale exponent (mark :: text)

/-- The text of a numeral in base ten, and its parts. -/
inductive Spells : Bool → List Char → List Char → Int → List Char → Prop where
  | mk {negative : Bool} {whole fraction mantissa scale text : List Char} {exponent : Int}
      (sign : Signed negative (mantissa ++ scale) text) (digits : Mantissa whole fraction mantissa)
      (power : Scale exponent scale) : Spells negative whole fraction exponent text

variable {negative : Bool} {whole fraction mantissa body text : List Char} {exponent : Int}

theorem Signed.mem {negative : Bool} {body core : List Char} {c : Char} (sign : Signed negative body core)
    (member : c ∈ body) : c ∈ core := by
  cases sign with
  | bare => exact member
  | plus | minus => exact List.mem_cons_of_mem _ member

theorem signed_signed (text : List Char) : Signed (signed text).1 (signed text).2 text := by
  unfold signed
  split <;> constructor

/-- A sign is read off whatever comes after it, unless that could be a sign itself. -/
theorem Signed.signed_eq (sign : Signed negative body text) (minus : body.head? ≠ some '-')
    (plus : body.head? ≠ some '+') : signed text = (negative, body) := by
  cases sign with
  | bare =>
    unfold signed
    split
    · exact absurd rfl minus
    · exact absurd rfl plus
    · rfl
  | plus | minus => rfl

theorem digits_ten_eq_ok_iff {values : List Nat} :
    Numeral.digits 10 text = .ok values ↔ AreDigits text ∧ values = text.map fun c => c.toNat - '0'.toNat := by
  induction text generalizing values with
  | nil => exact ⟨fun same => ⟨fun _ member => (nomatch member), (Except.ok.inj same).symm⟩, fun ⟨_, same⟩ => same ▸ rfl⟩
  | cons c rest ih =>
    have first := @value?_ten_eq_some_iff c
    unfold Numeral.digits
    cases found : value? 10 c with
    | none =>
      refine iff_of_false (fun same => nomatch same) fun written => ?_
      have digit := first.mpr ⟨written.1 c List.mem_cons_self, rfl⟩
      cases found.symm.trans digit
    | some digit =>
      obtain ⟨digitChar, rfl⟩ := first.mp found
      simp only [Results.bind_eq_ok, ih, AreDigits, List.forall_mem_cons, digitChar, true_and, List.map_cons]
      constructor
      · rintro ⟨others, ⟨digits, rfl⟩, same⟩
        exact ⟨digits, (Except.ok.inj same).symm⟩
      · rintro ⟨digits, rfl⟩
        exact ⟨_, ⟨digits, rfl⟩, rfl⟩

private theorem signed_digits (sign : Signed negative body text) (digits : AreDigits body) :
    signed text = (negative, body) :=
  sign.signed_eq (head_ne_of_digits digits '-' rfl) (head_ne_of_digits digits '+' rfl)

/-- The exponents that are let through are near enough to zero. -/
def Admitted (exponent : Int) : Prop := exponent.natAbs ≤ Decimal.maxExponent

/-- How the other ones are refused. The least integer of 64 bits has no magnitude there. -/
def refusal (exponent : Int) : Failure NumeralError :=
  if exponent = -Limits.integerBound then .overflow else .refused .exponentOutOfRange

private theorem limitExponent_of_magnitude (held : Machine.Holds exponent) (magnitude : Machine.Holds exponent.natAbs) :
    limitExponent exponent =
      if (Decimal.maxExponent : Int) < exponent.natAbs then .error (.refused .exponentOutOfRange) else .ok exponent := by
  rw [limitExponent, if_neg (not_not.mpr held), Machine.integer_eq magnitude]
  change (if _ then _ else _) = _
  split <;> rfl

theorem limitExponent_of_admitted (admitted : Admitted exponent) : limitExponent exponent = .ok exponent := by
  have near : ¬(Decimal.maxExponent : Int) < exponent.natAbs := by
    unfold Admitted at admitted
    omega
  unfold Admitted Decimal.maxExponent at admitted
  rw [limitExponent_of_magnitude, if_neg near] <;> unfold Machine.Holds Limits.integerBound <;> omega

theorem limitExponent_of_not_admitted (refused : ¬Admitted exponent) :
    limitExponent exponent = .error (refusal exponent) := by
  have far : (Decimal.maxExponent : Int) < exponent.natAbs := by
    unfold Admitted at refused
    omega
  unfold refusal
  by_cases held : Machine.Holds exponent
  · by_cases least : exponent = -Limits.integerBound
    · have out : ¬Machine.Holds exponent.natAbs := by
        unfold Machine.Holds Limits.integerBound at *
        omega
      rw [if_pos least, limitExponent, if_neg (not_not.mpr held), Machine.integer_eq_overflow out]
      rfl
    · have magnitude : Machine.Holds exponent.natAbs := by
        unfold Machine.Holds Limits.integerBound at *
        omega
      rw [if_neg least, limitExponent_of_magnitude held magnitude, if_pos far]
  · have other : exponent ≠ -Limits.integerBound := by
      rintro rfl
      exact held (by decide)
    rw [if_neg other, limitExponent, if_pos held]
    rfl

private theorem limitExponent_eq_ok_iff {limited : Int} :
    limitExponent exponent = .ok limited ↔ Admitted exponent ∧ exponent = limited := by
  by_cases admitted : Admitted exponent
  · simp [limitExponent_of_admitted admitted, admitted]
  · simp [limitExponent_of_not_admitted admitted, admitted]

private theorem readExponent_eq_ok_iff :
    readExponent text = .ok exponent ↔ Power exponent text ∧ Admitted exponent := by
  have read {negative : Bool} {body : List Char} (parts : signed text = (negative, body)) :
      readExponent text = .ok exponent ↔ body ≠ [] ∧ AreDigits body ∧
        Admitted (if negative then -(Nat.ofDigitChars 10 body 0 : Int) else Nat.ofDigitChars 10 body 0) ∧
        (if negative then -(Nat.ofDigitChars 10 body 0 : Int) else Nat.ofDigitChars 10 body 0) = exponent := by
    simp only [readExponent, parts, Results.check_eq_ok, Results.bind_eq_ok, digits_ten_eq_ok_iff,
      limitExponent_eq_ok_iff, List.isEmpty_iff, and_assoc, exists_and_left, exists_eq_left, valueOf_ten]
  constructor
  · intro found
    obtain ⟨nonempty, digits, admitted, rfl⟩ := (read rfl).mp found
    exact ⟨⟨signed_signed text, digits, nonempty⟩, admitted⟩
  · rintro ⟨⟨sign, digits, nonempty⟩, admitted⟩
    exact (read (signed_digits sign digits)).mpr ⟨nonempty, digits, admitted, rfl⟩

/-- An exponent that is written is limited and not refused for anything else. -/
theorem readExponent_of_power (power : Power exponent text) : readExponent text = limitExponent exponent := by
  obtain ⟨sign, digits, nonempty⟩ := power
  have read := digits_ten_eq_ok_iff.mpr ⟨digits, rfl⟩
  simp only [readExponent, signed_digits sign digits, List.isEmpty_iff, nonempty, if_false, read, bind, Except.bind,
    valueOf_ten]

theorem not_both_empty : ¬(whole.isEmpty && fraction.isEmpty) = true ↔ whole ≠ [] ∨ fraction ≠ [] := by
  rw [Bool.and_eq_true, List.isEmpty_iff, List.isEmpty_iff, not_and_or]

theorem splitPoint_of_free (free : ∀ c ∈ text, c ≠ '.') : splitPoint text = (text, []) := by
  have all : ∀ c ∈ text, (c != '.') = true := fun c member => bne_iff_ne.mpr (free c member)
  rw [splitPoint, List.takeWhile_eq_self_iff.mpr all, List.dropWhile_eq_nil_iff.mpr all]
  rfl

/-- The first point parts the digits. -/
theorem splitPoint_append (free : ∀ c ∈ whole, c ≠ '.') (fraction : List Char) :
    splitPoint (whole ++ '.' :: fraction) = (whole, fraction) := by
  have all : ∀ c ∈ whole, (c != '.') = true := fun c member => bne_iff_ne.mpr (free c member)
  rw [splitPoint, List.takeWhile_append_of_pos all, List.dropWhile_append_of_pos all]
  simp

theorem of_splitPoint (split : splitPoint text = (whole, fraction)) :
    text = whole ∧ fraction = [] ∨ text = whole ++ '.' :: fraction := by
  obtain ⟨rfl, rfl⟩ := Prod.mk.inj split
  have parts := List.takeWhile_append_dropWhile (p := (· != '.')) (l := text)
  have point := List.head?_dropWhile_not (· != '.') text
  cases rest : text.dropWhile (· != '.') with
  | nil =>
    rw [rest, List.append_nil] at parts
    exact .inl ⟨parts.symm, rfl⟩
  | cons c fraction =>
    rw [rest] at parts point
    obtain rfl : c = '.' := by simpa using point
    exact .inr parts.symm

theorem mantissa_iff :
    Mantissa whole fraction text ↔
      splitPoint text = (whole, fraction) ∧ AreDigits whole ∧ AreDigits fraction ∧ (whole ≠ [] ∨ fraction ≠ []) := by
  have pointless {digits : List Char} (areDigits : AreDigits digits) : ∀ c ∈ digits, c ≠ '.' :=
    fun c member => ne_of_digit _ (areDigits c member) rfl
  constructor
  · rintro (⟨digits, nonempty⟩ | ⟨wholeDigits, fractionDigits, nonempty⟩)
    · exact ⟨splitPoint_of_free (pointless digits), digits, fun _ member => (nomatch member), .inl nonempty⟩
    · exact ⟨splitPoint_append (pointless wholeDigits) _, wholeDigits, fractionDigits, nonempty⟩
  · rintro ⟨split, wholeDigits, fractionDigits, nonempty⟩
    rcases of_splitPoint split with ⟨rfl, rfl⟩ | rfl
    · exact .whole wholeDigits (nonempty.resolve_right (not_not.mpr rfl))
    · exact .pointed wholeDigits fractionDigits nonempty

theorem Mantissa.mem {c : Char} (written : Mantissa whole fraction text) (member : c ∈ text) :
    c.isDigit = true ∨ c = '.' := by
  cases written with
  | whole digits => exact .inl (digits c member)
  | pointed wholeDigits fractionDigits =>
    rcases List.mem_append.mp member with inWhole | inFraction
    · exact .inl (wholeDigits c inWhole)
    · exact (List.mem_cons.mp inFraction).symm.imp (fractionDigits c) id

theorem Mantissa.ne_nil (written : Mantissa whole fraction text) : text ≠ [] := by
  cases written with
  | whole _ nonempty => exact nonempty
  | pointed => simp

/-- After a sign comes no second one. -/
theorem Mantissa.head_ne (written : Mantissa whole fraction mantissa) (rest : List Char) (other : Char)
    (none : other.isDigit = false) (noPoint : other ≠ '.') : (mantissa ++ rest).head? ≠ some other := by
  intro first
  rw [List.head?_append_of_ne_nil _ written.ne_nil] at first
  rcases written.mem (List.mem_of_mem_head? first) with digit | point
  · exact ne_of_digit _ digit none rfl
  · exact noPoint point

private theorem isExponentMark_iff {c : Char} : isExponentMark c = true ↔ c = 'e' ∨ c = 'E' := by
  simp [isExponentMark]

/-- The digits end where the exponent begins. -/
theorem Mantissa.takeWhile_append {scale : List Char} (written : Mantissa whole fraction mantissa)
    (power : Scale exponent scale) : (mantissa ++ scale).takeWhile (!isExponentMark ·) = mantissa := by
  have unmarked : ∀ c ∈ mantissa, (!isExponentMark c) = true := by
    intro c member
    rcases written.mem member with digit | rfl
    · simp [isExponentMark, ne_of_digit 'e' digit rfl, ne_of_digit 'E' digit rfl]
    · rfl
  rw [List.takeWhile_append_of_pos unmarked]
  cases power with
  | absent => simp
  | present marked => simp [isExponentMark_iff.mpr marked]

/-- The numeral that has the parts. -/
def ofParts (negative : Bool) (whole fraction : List Char) (exponent : Int) : Numeral :=
  ⟨negative, whole.map fun c => c.toNat - '0'.toNat, fraction.map fun c => c.toNat - '0'.toNat, exponent⟩

theorem Signed.shown (sign : Signed negative body text) (shown : ∀ c ∈ body, Text.isBlank c = false) :
    ∀ c ∈ text, Text.isBlank c = false := by
  cases sign with
  | bare => exact shown
  | plus | minus => exact List.forall_mem_cons.mpr ⟨rfl, shown⟩

/-- No character of a numeral is blank. -/
theorem Spells.shown (spelled : Spells negative whole fraction exponent text) : ∀ c ∈ text, Text.isBlank c = false := by
  obtain ⟨sign, digits, power⟩ := spelled
  refine sign.shown fun c member => ?_
  rcases List.mem_append.mp member with inMantissa | inScale
  · rcases digits.mem inMantissa with digit | rfl
    · exact digit_shown digit
    · rfl
  · cases power with
    | absent => cases inScale
    | present marked power =>
      rcases List.mem_cons.mp inScale with rfl | inPower
      · rcases marked with rfl | rfl <;> rfl
      · obtain ⟨sign, digits⟩ := power
        exact sign.shown (fun c member => digit_shown (digits c member)) c inPower

theorem Spells.areDigits {core : List Char} (spelled : Spells negative whole fraction exponent core) :
    AreDigits (whole ++ fraction) := by
  obtain ⟨-, digits, -⟩ := spelled
  obtain ⟨-, wholeDigits, fractionDigits, -⟩ := mantissa_iff.mp digits
  exact areDigits_append.mpr ⟨wholeDigits, fractionDigits⟩

/-- A spelled numeral is read between blanks, unless its exponent is refused. -/
theorem Spells.read_eq {core : List Char} {text : String} (spelled : Spells negative whole fraction exponent core)
    (padded : Text.Padded core text.toList) (admitted : Admitted exponent) :
    Numeral.read 10 text = .ok (ofParts negative whole fraction exponent) := by
  have trimmed := padded.trimmed_eq spelled.shown
  obtain ⟨sign, digits, power⟩ := spelled
  obtain ⟨split, wholeDigits, fractionDigits, nonempty⟩ := mantissa_iff.mp digits
  have signed := sign.signed_eq (digits.head_ne _ '-' rfl (by decide)) (digits.head_ne _ '+' rfl (by decide))
  have ends := digits.takeWhile_append power
  cases power with
  | absent =>
    simp only [Numeral.read, trimmed, signed, ends, if_true, List.drop_left, split, Results.check_eq_ok,
      Results.bind_eq_ok, digits_ten_eq_ok_iff, not_both_empty]
    exact ⟨by decide, 0, rfl, nonempty, _, ⟨wholeDigits, rfl⟩, _, ⟨fractionDigits, rfl⟩, rfl⟩
  | present _ power =>
    simp only [Numeral.read, trimmed, signed, ends, if_true, List.drop_left, split, Results.check_eq_ok,
      Results.bind_eq_ok, digits_ten_eq_ok_iff, readExponent_eq_ok_iff, not_both_empty]
    exact ⟨by decide, _, ⟨power, admitted⟩, nonempty, _, ⟨wholeDigits, rfl⟩, _, ⟨fractionDigits, rfl⟩, rfl⟩

/-- Where the exponent is refused, it does not matter what the digits are. -/
theorem Spells.read_of_not_admitted {core : List Char} {text : String}
    (spelled : Spells negative whole fraction exponent core) (padded : Text.Padded core text.toList)
    (refused : ¬Admitted exponent) :
    Numeral.read 10 text = .error (refusal exponent) := by
  have trimmed := padded.trimmed_eq spelled.shown
  obtain ⟨sign, digits, power⟩ := spelled
  have signed := sign.signed_eq (digits.head_ne _ '-' rfl (by decide)) (digits.head_ne _ '+' rfl (by decide))
  have ends := digits.takeWhile_append power
  cases power with
  | absent => exact absurd (Nat.zero_le _) refused
  | present _ power =>
    simp only [Numeral.read, trimmed, signed, ends, if_true, List.drop_left, readExponent_of_power power,
      limitExponent_of_not_admitted refused]
    rfl

/-- Whatever is read is spelled. -/
theorem spells_of_read {text : String} {numeral : Numeral} (read : Numeral.read 10 text = .ok numeral) :
    ∃ negative whole fraction exponent, Spells negative whole fraction exponent (Text.trimmed text.toList) ∧
      Admitted exponent ∧ numeral = ofParts negative whole fraction exponent := by
  have sign := signed_signed (Text.trimmed text.toList)
  cases signed : signed (Text.trimmed text.toList) with
  | mk negative body =>
    rw [signed] at sign
    have parts := List.takeWhile_append_dropWhile (p := (!isExponentMark ·)) (l := body)
    have marked := List.head?_dropWhile_not (!isExponentMark ·) body
    have rest := @List.drop_left _ (body.takeWhile (!isExponentMark ·)) (body.dropWhile (!isExponentMark ·))
    rw [parts] at rest
    rw [← parts] at sign
    cases scale : body.dropWhile (!isExponentMark ·) with
    | nil =>
      rw [scale] at sign rest
      simp only [Numeral.read, signed, rest, if_true, Results.check_eq_ok, Results.bind_eq_ok,
        digits_ten_eq_ok_iff, not_both_empty] at read
      obtain ⟨-, _, zero, nonempty, _, ⟨wholeDigits, rfl⟩, _, ⟨fractionDigits, rfl⟩, same⟩ := read
      obtain rfl := Except.ok.inj zero
      obtain rfl := Except.ok.inj same
      have digits := mantissa_iff.mpr ⟨rfl, wholeDigits, fractionDigits, nonempty⟩
      exact ⟨_, _, _, _, ⟨sign, digits, .absent⟩, Nat.zero_le _, rfl⟩
    | cons mark text =>
      rw [scale] at sign rest marked
      simp only [Numeral.read, signed, rest, if_true, Results.check_eq_ok, Results.bind_eq_ok,
        digits_ten_eq_ok_iff, readExponent_eq_ok_iff, not_both_empty] at read
      obtain ⟨-, exponent, ⟨power, admitted⟩, nonempty, _, ⟨wholeDigits, rfl⟩, _, ⟨fractionDigits, rfl⟩, same⟩ := read
      obtain rfl := Except.ok.inj same
      have digits := mantissa_iff.mpr ⟨rfl, wholeDigits, fractionDigits, nonempty⟩
      have mark := isExponentMark_iff.mp (by simpa using marked)
      exact ⟨_, _, _, _, ⟨sign, digits, .present mark power⟩, admitted, rfl⟩

end Numeral

end Dialogue
