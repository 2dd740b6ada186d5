import Dialogue.Proofs.ExactReading
import Mathlib.Algebra.Order.Field.Basic
import Mathlib.Tactic.Positivity

/-! Numerals in the bases other than ten, which have no exponents. A text is taken apart exactly when it is such
a numeral between blanks, and the parts are the digits that its characters stand for. -/

namespace Dialogue

namespace Digits

/-- The digits of the largest base in order. -/
def alphabet : List Char := "0123456789abcdefghijklmnopqrstuvwxyz".toList

/-- A character stands for a digit of the base, a letter whatever its case. -/
def Stands (base : Nat) (c : Char) (digit : Nat) : Prop := digit < base ∧ alphabet[digit]? = some c.toLower

instance (base : Nat) (c : Char) (digit : Nat) : Decidable (Stands base c digit) :=
  inferInstanceAs (Decidable (_ ∧ _))

variable {base digit : Nat} {c : Char} {text : List Char} {digits : List Nat}

theorem toNat_toLower (c : Char) :
    c.toLower.toNat = if 65 ≤ c.toNat ∧ c.toNat ≤ 90 then c.toNat + 32 else c.toNat := by
  have upper : c.val ≥ 'A'.val ∧ c.val ≤ 'Z'.val ↔ 65 ≤ c.toNat ∧ c.toNat ≤ 90 := Iff.rfl
  unfold Char.toLower
  split
  next inside =>
    rw [if_pos (upper.mp inside)]
    have small := (upper.mp inside).2
    change (c.val + 32).toNat = c.val.toNat + 32
    rw [UInt32.toNat_add]
    change (c.toNat + 32) % 2 ^ 32 = c.toNat + 32
    omega
  next outside => rw [if_neg (mt upper.mpr outside)]

theorem alphabet_eq_some_iff :
    alphabet[digit]? = some c ↔ digit < 36 ∧ c.toNat = if digit < 10 then digit + 48 else digit + 87 := by
  have codes : ∀ place < 36, alphabet[place]?.map Char.toNat = some (if place < 10 then place + 48 else place + 87) := by
    decide
  constructor
  · intro found
    have inside : digit < 36 := (List.getElem?_eq_some_iff.mp found).1
    have code := codes digit inside
    rw [found] at code
    exact ⟨inside, Option.some.inj code⟩
  · rintro ⟨inside, code⟩
    obtain ⟨other, found, same⟩ := Option.map_eq_some_iff.mp (codes digit inside)
    rw [found, Char.toNat_inj.mp (same.trans code.symm)]

private theorem value?_eq_some_iff : value? base c = some digit ↔ Stands base c digit := by
  have figure : '0' ≤ c ∧ c ≤ '9' ↔ 48 ≤ c.toNat ∧ c.toNat ≤ 57 := Iff.rfl
  have lower : 'a' ≤ c ∧ c ≤ 'z' ↔ 97 ≤ c.toNat ∧ c.toNat ≤ 122 := Iff.rfl
  have upper : 'A' ≤ c ∧ c ≤ 'Z' ↔ 65 ≤ c.toNat ∧ c.toNat ≤ 90 := Iff.rfl
  have codes : '0'.toNat = 48 ∧ 'a'.toNat = 97 ∧ 'A'.toNat = 65 := ⟨rfl, rfl, rfl⟩
  simp only [Stands, alphabet_eq_some_iff, toNat_toLower, value?, Option.filter_eq_some_iff, decide_eq_true_eq, figure,
    lower, upper, codes]
  split_ifs <;> simp <;> omega

/-- Only figures and letters stand for digits. -/
theorem Stands.code (stands : Stands base c digit) :
    48 ≤ c.toNat ∧ c.toNat ≤ 57 ∨ 65 ≤ c.toNat ∧ c.toNat ≤ 90 ∨ 97 ≤ c.toNat ∧ c.toNat ≤ 122 := by
  obtain ⟨small, code⟩ := alphabet_eq_some_iff.mp stands.2
  rw [toNat_toLower] at code
  split_ifs at code <;> omega

theorem Stands.ne (stands : Stands base c digit) (other : Char) (low : other.toNat < 48) : c ≠ other := by
  rintro rfl
  have := stands.code
  omega

theorem Stands.shown (stands : Stands base c digit) : Text.isBlank c = false := by
  have := stands.code
  simp only [Text.isBlank, Text.Ranges.contains, Text.blanks, List.any_cons, List.any_nil, Bool.or_false,
    Bool.or_eq_false_iff, Bool.and_eq_false_iff, decide_eq_false_iff_not]
  omega

/-- The value of a list of digits, the most significant one first. -/
theorem valueOf_eq (base : Nat) (digits : List Nat) : valueOf base digits = Nat.ofDigits base digits.reverse := by
  rw [valueOf, Nat.ofDigits_eq_foldr, List.foldr_reverse]
  simp only [Nat.cast_id, Nat.add_comm, Nat.mul_comm]

end Digits

namespace Numeral

open Digits

variable {base : Nat} {negative : Bool} {whole fraction digits : List Nat} {body text left right : List Char}

/-- The part of one that the digits after the point stand for. -/
def partOf (base : Nat) (fraction : List Nat) : ℚ :=
  (Nat.ofDigits base fraction.reverse : Nat) / (base : ℚ) ^ fraction.length

/-- Characters for digits, with a point before, among or after them if there is any. -/
inductive MantissaIn (base : Nat) : List Nat → List Nat → List Char → Prop where
  | whole {whole : List Nat} {text : List Char} (digits : List.Forall₂ (Stands base) text whole) (nonempty : text ≠ []) :
      MantissaIn base whole [] text
  | pointed {whole fraction : List Nat} {left right : List Char} (wholeDigits : List.Forall₂ (Stands base) left whole)
      (fractionDigits : List.Forall₂ (Stands base) right fraction) (nonempty : left ≠ [] ∨ right ≠ []) :
      MantissaIn base whole fraction (left ++ '.' :: right)

/-- The text of a numeral without an exponent, and its parts. -/
inductive SpellsIn (base : Nat) : Bool → List Nat → List Nat → List Char → Prop where
  | mk {negative : Bool} {whole fraction : List Nat} {mantissa text : List Char}
      (sign : Signed negative mantissa text) (digits : MantissaIn base whole fraction mantissa) :
      SpellsIn base negative whole fraction text

private theorem digits_eq_ok_iff : Numeral.digits base text = .ok digits ↔ List.Forall₂ (Stands base) text digits := by
  induction text generalizing digits with
  | nil =>
    rw [Numeral.digits, List.forall₂_nil_left_iff]
    exact ⟨fun same => (Except.ok.inj same).symm, fun same => same ▸ rfl⟩
  | cons c rest ih =>
    have first (digit : Nat) := @value?_eq_some_iff base digit c
    unfold Numeral.digits
    cases found : value? base c with
    | none =>
      refine iff_of_false (fun same => nomatch same) fun written => ?_
      obtain ⟨digit, _, stands, -, -⟩ := List.forall₂_cons_left_iff.mp written
      cases found.symm.trans ((first digit).mpr stands)
    | some digit =>
      simp only [Results.bind_eq_ok, ih, List.forall₂_cons_left_iff, ← first, found]
      constructor
      · rintro ⟨others, written, same⟩
        exact ⟨digit, others, rfl, written, (Except.ok.inj same).symm⟩
      · rintro ⟨_, others, same, written, rfl⟩
        cases same
        exact ⟨others, written, rfl⟩

theorem mem_stands (written : List.Forall₂ (Stands base) text digits) {c : Char} (member : c ∈ text) :
    ∃ digit ∈ digits, Stands base c digit := by
  induction written with
  | nil => cases member
  | cons stands _ ih =>
    rcases List.mem_cons.mp member with rfl | inRest
    · exact ⟨_, List.mem_cons_self, stands⟩
    · obtain ⟨digit, present, stands⟩ := ih inRest
      exact ⟨digit, List.mem_cons_of_mem _ present, stands⟩

private theorem mantissaIn_iff :
    MantissaIn base whole fraction text ↔
      List.Forall₂ (Stands base) (splitPoint text).1 whole ∧ List.Forall₂ (Stands base) (splitPoint text).2 fraction ∧
        ((splitPoint text).1 ≠ [] ∨ (splitPoint text).2 ≠ []) := by
  have pointless {text : List Char} {digits : List Nat} (written : List.Forall₂ (Stands base) text digits) :
      ∀ c ∈ text, c ≠ '.' := by
    intro c member
    obtain ⟨_, -, stands⟩ := mem_stands written member
    exact stands.ne '.' (by decide)
  constructor
  · rintro (⟨digits, nonempty⟩ | ⟨wholeDigits, fractionDigits, nonempty⟩)
    · rw [splitPoint_of_free (pointless digits)]
      exact ⟨digits, .nil, .inl nonempty⟩
    · rw [splitPoint_append (pointless wholeDigits)]
      exact ⟨wholeDigits, fractionDigits, nonempty⟩
  · rintro ⟨wholeDigits, fractionDigits, nonempty⟩
    generalize split : splitPoint text = parts at wholeDigits fractionDigits nonempty
    obtain ⟨left, right⟩ := parts
    rcases of_splitPoint split with ⟨rfl, rfl⟩ | rfl
    · cases fractionDigits
      exact .whole wholeDigits (nonempty.resolve_right (not_not.mpr rfl))
    · exact .pointed wholeDigits fractionDigits nonempty

theorem MantissaIn.mem (written : MantissaIn base whole fraction text) {c : Char} (member : c ∈ text) :
    (∃ digit ∈ whole ++ fraction, Stands base c digit) ∨ c = '.' := by
  cases written with
  | whole digits =>
    rw [List.append_nil]
    exact .inl (mem_stands digits member)
  | pointed wholeDigits fractionDigits =>
    rcases List.mem_append.mp member with inWhole | rest
    · obtain ⟨digit, present, stands⟩ := mem_stands wholeDigits inWhole
      exact .inl ⟨digit, List.mem_append_left _ present, stands⟩
    · rcases List.mem_cons.mp rest with point | inFraction
      · exact .inr point
      · obtain ⟨digit, present, stands⟩ := mem_stands fractionDigits inFraction
        exact .inl ⟨digit, List.mem_append_right _ present, stands⟩

/-- After a sign comes no second one. -/
theorem MantissaIn.head_ne (written : MantissaIn base whole fraction text) (mark : Char) (low : mark.toNat < 48)
    (noPoint : mark ≠ '.') : text.head? ≠ some mark := by
  intro first
  rcases written.mem (List.mem_of_mem_head? first) with ⟨_, -, stands⟩ | point
  · exact stands.ne mark low rfl
  · exact noPoint point

/-- Other bases are refused before anything is read. -/
theorem base_of_read {text : String} {numeral : Numeral} (read : Numeral.read base text = .ok numeral) :
    2 ≤ base ∧ base ≤ 36 := by
  by_contra unknown
  rw [Numeral.read, if_pos (by omega)] at read
  cases read

/-- A numeral is taken apart into the digits that it spells, and no other text is taken apart. -/
theorem read_eq_ok_iff {text : String} {numeral : Numeral} (least : 2 ≤ base) (most : base ≤ 36) (other : base ≠ 10) :
    Numeral.read base text = .ok numeral ↔
      numeral.exponent = 0 ∧ ∃ core, Text.Padded core text.toList ∧
        SpellsIn base numeral.negative numeral.whole numeral.fraction core := by
  have known : ¬(base < 2 ∨ 36 < base) := by omega
  have parts {negative : Bool} {body : List Char} (signed : signed (Text.trimmed text.toList) = (negative, body)) :
      Numeral.read base text = .ok numeral ↔
        numeral.exponent = 0 ∧ numeral.negative = negative ∧ MantissaIn base numeral.whole numeral.fraction body := by
    simp only [Numeral.read, signed, other, if_false, List.drop_length, Results.check_eq_ok, Results.bind_eq_ok,
      digits_eq_ok_iff, not_both_empty, mantissaIn_iff, known]
    constructor
    · rintro ⟨exponent, zero, nonempty, whole, wholeDigits, fraction, fractionDigits, same⟩
      obtain rfl := Except.ok.inj same
      exact ⟨(Except.ok.inj zero).symm, rfl, wholeDigits, fractionDigits, nonempty⟩
    · obtain ⟨negative', whole, fraction, exponent⟩ := numeral
      rintro ⟨rfl, rfl, wholeDigits, fractionDigits, nonempty⟩
      exact ⟨0, rfl, nonempty, whole, wholeDigits, fraction, fractionDigits, rfl⟩
  constructor
  · intro read
    obtain ⟨zero, sign, digits⟩ := (parts rfl).mp read
    exact ⟨zero, _, Text.padded_trimmed _, .mk (sign ▸ signed_signed _) digits⟩
  · rintro ⟨zero, core, padded, ⟨sign, digits⟩⟩
    have shown := sign.shown fun c member => by
      rcases digits.mem member with ⟨_, -, stands⟩ | rfl
      · exact stands.shown
      · rfl
    have signed := sign.signed_eq (digits.head_ne '-' (by decide) (by decide))
      (digits.head_ne '+' (by decide) (by decide))
    rw [← padded.trimmed_eq shown] at signed
    exact (parts signed).mpr ⟨zero, rfl, digits⟩

theorem partOf_nonneg (base : Nat) (fraction : List Nat) : 0 ≤ partOf base fraction :=
  div_nonneg (Nat.cast_nonneg _) (pow_nonneg (Nat.cast_nonneg _) _)

theorem lt_base_of_mem (digits : List.Forall₂ (Stands base) text fraction) {digit : Nat} (member : digit ∈ fraction) :
    digit < base := by
  induction digits with
  | nil => cases member
  | cons stands _ ih =>
    rcases List.mem_cons.mp member with rfl | inRest
    · exact stands.1
    · exact ih inRest

/-- The digits after the point do not make up a whole one. -/
theorem partOf_lt_one (least : 2 ≤ base) (digits : List.Forall₂ (Stands base) text fraction) :
    partOf base fraction < 1 := by
  have small : ∀ digit ∈ fraction.reverse, digit < base := fun _ member =>
    lt_base_of_mem digits (List.mem_reverse.mp member)
  have bound := Nat.ofDigits_lt_base_pow_length least small
  rw [List.length_reverse] at bound
  have power : (0 : ℚ) < (base : ℚ) ^ fraction.length := by positivity
  rw [partOf, div_lt_one power]
  exact_mod_cast bound

theorem SpellsIn.partOf_lt_one (least : 2 ≤ base) (spelled : SpellsIn base negative whole fraction text) :
    partOf base fraction < 1 := by
  obtain ⟨-, digits⟩ := spelled
  cases digits with
  | whole => exact Numeral.partOf_lt_one least .nil
  | pointed _ fractionDigits => exact Numeral.partOf_lt_one least fractionDigits

end Numeral

end Dialogue
