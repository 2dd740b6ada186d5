import Dialogue.Proofs.NumeralBases

/-! The one exponent that reading does not refuse. It is the least integer of 64 bits, whose magnitude overflows
before it can be compared with anything. -/

namespace Dialogue

namespace Numeral

open Results

variable {text : String} {power : List Char} {exponent : Int}

theorem Power.exists_figure (written : Power exponent power) : ∃ c ∈ power, c.isDigit = true := by
  obtain ⟨sign, figures, nonempty⟩ := written
  obtain ⟨c, inside⟩ := List.exists_mem_of_ne_nil _ nonempty
  exact ⟨c, sign.mem inside, figures c inside⟩

/-- The least integer of 64 bits stands after the first mark of an exponent, whatever stands before it. -/
inductive MarksLeast : List Char → Prop where
  | mk {front power : List Char} {mark : Char} (unmarked : ∀ c ∈ front, isExponentMark c = false)
      (marked : isExponentMark mark = true) (least : Power (-Limits.integerBound) power) :
      MarksLeast (front ++ mark :: power)

/-- What stands before the first mark, a sign included, does not matter. -/
private theorem marksLeast_iff {negative : Bool} {body core : List Char} (sign : Signed negative body core) :
    MarksLeast core ↔ ∃ mark power, body.dropWhile (!isExponentMark ·) = mark :: power ∧
      Power (-Limits.integerBound) power := by
  have same : core.dropWhile (!isExponentMark ·) = body.dropWhile (!isExponentMark ·) := by
    cases sign with
    | bare => rfl
    | plus | minus => exact List.dropWhile_cons_of_pos rfl
  rw [← same]
  constructor
  · rintro @⟨front, power, mark, unmarked, marked, least⟩
    refine ⟨mark, power, ?_, least⟩
    rw [List.dropWhile_append_of_pos (by simpa using unmarked), List.dropWhile_cons_of_neg (by simpa using marked)]
  · rintro ⟨mark, power, rest, least⟩
    have marked := List.head?_dropWhile_not (!isExponentMark ·) core
    have parts := List.takeWhile_append_dropWhile (p := (!isExponentMark ·)) (l := core)
    rw [rest] at marked parts
    rw [← parts]
    exact .mk (fun c member => by simpa using List.mem_takeWhile_imp member) (by simpa using marked) least

private theorem drop_takeWhile {α : Type} (p : α → Bool) (l : List α) :
    l.drop (l.takeWhile p).length = l.dropWhile p := by
  have rest := @List.drop_left _ (l.takeWhile p) (l.dropWhile p)
  rwa [List.takeWhile_append_dropWhile] at rest

private theorem limitExponent_overflow_iff :
    limitExponent exponent = .error .overflow ↔ exponent = -Limits.integerBound := by
  constructor
  · intro overflows
    by_cases admitted : Admitted exponent
    · cases (limitExponent_of_admitted admitted).symm.trans overflows
    · have refused := (limitExponent_of_not_admitted admitted).symm.trans overflows
      unfold refusal at refused
      split at refused
      next least => exact least
      next => cases refused
  · rintro rfl
    decide

private theorem readExponent_overflow_iff :
    readExponent power = .error .overflow ↔ Power (-Limits.integerBound) power := by
  constructor
  · intro overflows
    by_cases empty : (signed power).2 = []
    · simp only [readExponent, empty] at overflows
      cases overflows
    · cases found : Numeral.digits 10 (signed power).2 with
      | error failure =>
        simp only [readExponent, List.isEmpty_iff, empty, found, if_false] at overflows
        obtain rfl := Except.error.inj overflows
        exact absurd rfl (Decimal.digits_error found)
      | ok values =>
        obtain ⟨digits, -⟩ := digits_ten_eq_ok_iff.mp found
        have written := Power.mk (signed_signed power) digits empty
        rw [readExponent_of_power written, limitExponent_overflow_iff] at overflows
        exact overflows ▸ written
  · intro least
    rw [readExponent_of_power least, limitExponent_overflow_iff]

/-- Taking a numeral apart overflows where the least integer is its exponent and nowhere else. -/
private theorem read_overflow_iff :
    Numeral.read 10 text = .error .overflow ↔ MarksLeast (Text.trimmed text.toList) := by
  have sign := signed_signed (Text.trimmed text.toList)
  rw [marksLeast_iff sign]
  unfold Numeral.read
  simp only [if_true, drop_takeWhile]
  rw [if_neg (by decide)]
  cases scale : (signed (Text.trimmed text.toList)).2.dropWhile (!isExponentMark ·) with
  | nil =>
    refine iff_of_false (fun overflows => ?_) fun ⟨_, _, impossible, _⟩ => nomatch impossible
    exact Decimal.gathered_error overflows rfl
  | cons mark power =>
    constructor
    · intro overflows
      rcases bind_eq_error.mp overflows with overflows | ⟨_, -, overflows⟩
      · exact ⟨mark, power, rfl, readExponent_overflow_iff.mp overflows⟩
      · exact absurd rfl (Decimal.gathered_error overflows)
    · rintro ⟨_, _, same, least⟩
      obtain ⟨rfl, rfl⟩ := List.cons.inj same
      exact bind_eq_error.mpr (.inl (readExponent_overflow_iff.mpr least))

end Numeral

namespace Decimal

open Numeral Results

variable {text : String} {base precision : Nat} {mode : Rounding}

theorem parse_overflow_iff : parse text = .error .overflow ↔ MarksLeast (Text.trimmed text.toList) := by
  rw [← read_overflow_iff]
  constructor
  · intro overflows
    rcases bind_eq_error.mp overflows with overflows | ⟨_, -, overflows⟩
    · exact overflows
    · exact absurd rfl (inRange_error overflows)
  · exact fun overflows => bind_eq_error.mpr (.inl overflows)

theorem parseIn_overflow_iff :
    parseIn base text precision mode = .error .overflow ↔
      base = 10 ∧ MarksLeast (Text.trimmed text.toList) := by
  rw [← parse_overflow_iff]
  constructor
  · exact parseIn_overflow
  · rintro ⟨rfl, overflows⟩
    exact bind_eq_error.mpr (.inl overflows)

end Decimal

namespace Scalar

variable {value : Scalar} {text : String} {config : Config} {c : Char}

/-- A text that is no numeral of the active base only because its exponent overflows. -/
def MarksLeast (value : Scalar) (config : Config) : Prop :=
  ∃ text, value = .text text ∧ config.base = 10 ∧ Numeral.MarksLeast (Text.trimmed text.toList)

private theorem shown_of_marksLeast (least : Numeral.MarksLeast (Text.trimmed text.toList)) :
    ¬(Text.trim text).isEmpty = true := by
  intro blank
  have nothing : Text.trimmed text.toList = [] := by simpa [Text.trim] using blank
  generalize Text.trimmed text.toList = core at least nothing
  cases least
  simp at nothing

theorem not_word_of_figure (member : c ∈ text.toList) (figure : c.isDigit = true) :
    Text.sameIgnoringCase text "false" = false := by
  rw [← Bool.not_eq_true, Text.sameIgnoringCase, beq_iff_eq]
  intro same
  have inside : c.toLower ∈ "false".toList.map Char.toLower := same ▸ List.mem_map_of_mem member
  have letters : ∀ letter ∈ "false".toList.map Char.toLower, '9'.toNat < letter.toNat := by simp
  have far := letters _ inside
  have near := (Digits.digit_bounds figure).2
  have nine : '9'.toNat = 57 := rfl
  rw [Digits.toNat_toLower, if_neg (by omega)] at far
  omega

/-- The least exponent has figures, and the word for what is false has none. -/
private theorem not_word_of_marksLeast (least : Numeral.MarksLeast text.toList) :
    Text.sameIgnoringCase text "false" = false := by
  generalize same : text.toList = core at least
  obtain ⟨-, -, written⟩ := least
  obtain ⟨c, inside, figure⟩ := written.exists_figure
  refine not_word_of_figure ?_ figure
  rw [same]
  exact List.mem_append_right _ (List.mem_cons_of_mem _ inside)

theorem parse_overflow_iff : Number.parse text config = .error .overflow ↔
    config.base = 10 ∧ Numeral.MarksLeast (Text.trimmed text.toList) := by
  rw [← @Decimal.parseIn_overflow_iff _ _ config.precision config.rounding]
  unfold Number.parse
  split
  next blank =>
    refine iff_of_false (fun overflows => nomatch overflows) fun overflows => ?_
    exact shown_of_marksLeast (Decimal.parseIn_overflow_iff.mp overflows).2 blank
  next =>
    rcases Decimal.parseIn config.base text config.precision config.rounding with (_ | _) | _ <;> simp [Failure.map]

theorem asNumber_overflow_iff : value.asNumber config = .error .overflow ↔ value.MarksLeast config := by
  cases value with
  | text text => simp [asNumber, MarksLeast, parse_overflow_iff]
  | _ => simp [asNumber, MarksLeast]

private theorem saysFalse_overflow_iff : saysFalse text config = .error .overflow ↔
    config.base = 10 ∧ Numeral.MarksLeast (Text.trimmed text.toList) := by
  have parsed : Number.parse (Text.trim text) config = .error .overflow ↔
      config.base = 10 ∧ Numeral.MarksLeast (Text.trimmed text.toList) := by
    rw [parse_overflow_iff, Text.trim, String.toList_ofList, Text.trimmed_trimmed]
  rw [← parsed]
  unfold saysFalse
  dsimp only
  split
  next known =>
    refine iff_of_false (by rintro ⟨⟩) fun overflows => ?_
    obtain ⟨-, least⟩ := parsed.mp overflows
    have other : Text.sameIgnoringCase (Text.trim text) "false" = false := by
      apply not_word_of_marksLeast
      rwa [Text.trim, String.toList_ofList]
    rw [other, Bool.or_false] at known
    exact shown_of_marksLeast least known
  next => rcases Number.parse (Text.trim text) config with (_ | _) | _ <;> simp

theorem asTruth_overflow_iff : value.asTruth config = .error .overflow ↔ value.MarksLeast config := by
  cases value with
  | text text => simp [asTruth, MarksLeast, Results.map_eq_error, saysFalse_overflow_iff]
  | _ => simp [asTruth, MarksLeast]

/-- A truth value is found whatever a text says, unless its exponent overflows. -/
theorem asTruth_eq_error {failure : Failure Cause} (failed : value.asTruth config = .error failure) :
    failure = .overflow := by
  cases value with
  | text text =>
    have stopped := Results.map_eq_error.mp failed
    unfold saysFalse at stopped
    dsimp only at stopped
    split at stopped
    · cases stopped
    · split at stopped
      · cases stopped
      · cases stopped
      · exact (Except.error.inj stopped).symm
  | number | truth => cases failed

end Scalar

end Dialogue
