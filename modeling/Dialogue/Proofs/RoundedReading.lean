import Dialogue.Proofs.GuardedRounding
import Dialogue.Proofs.NumeralBases
import Dialogue.Proofs.RoundedArithmetic

/-! Numerals that are rounded as they are read. In base ten the value is rounded once. In the other bases the
fraction is divided out with guard digits and the sign comes last, which a rounding can see: toward one side when
the numeral is negative, and on a tie that the guard digits make. -/

namespace Dialogue

open Rounding

namespace Decimal

variable {text : String} {core : List Char} {precision base : Nat} {mode : Rounding} {negative : Bool}
  {whole fraction : List Nat} {value : ℚ}

theorem Gives.inRange {outcome : Except ArithmeticError Decimal} (given : Gives .overflow value outcome) :
    Gives (.refused .exponentOutOfRange) value (inRange outcome) := by
  constructor
  · intro range
    obtain ⟨result, found, written, same⟩ := given.within range
    exact ⟨result, by rw [found, Decimal.inRange], written, same⟩
  · intro far
    rw [given.beyond far, Decimal.inRange]

def withSign (negative : Bool) (value : ℚ) : ℚ := if negative then -value else value

private theorem withSign_inj {other : ℚ} : withSign negative value = withSign negative other ↔ value = other := by
  unfold withSign
  split
  · exact neg_inj
  · rfl

private theorem within_withSign : Within (withSign negative value) ↔ Within value := by
  unfold withSign
  split
  · simp only [Within, neg_eq_zero, abs_neg]
  · rfl

/-- The sign is put on a decimal that has been rounded. -/
theorem Gives.withSign {ε : Type} {refusal : ε} {outcome : Except ε Decimal} (read : Gives refusal value outcome)
    (negative : Bool) :
    Gives refusal (withSign negative value) (do let d ← outcome; return if negative then d.neg else d) := by
  constructor
  · intro range
    obtain ⟨result, found, written, same⟩ := read.within (within_withSign.mp range)
    refine ⟨if negative then result.neg else result, by rw [found]; rfl, ?_, ?_⟩
    · split
      · exact normal_neg written
      · exact written
    · unfold Decimal.withSign
      split
      · rw [toRat_neg, same]
      · exact same
  · intro far
    rw [read.beyond (mt within_withSign.mpr far)]
    rfl

theorem toRat_ofInt (value : Int) : (ofInt value).toRat = value := by
  rw [ofInt, toRat_normal, zpow_zero, mul_one]

/-- What is rounded last: the digits before the point alone, or with what the guard digits hold of the fraction. -/
def lastRounded (mode : Rounding) (precision base : Nat) (whole fraction : List Nat) : ℚ :=
  if fraction = [] then (Nat.ofDigits base whole.reverse : Nat)
  else mode.guarded (guardedDigits precision) (Nat.ofDigits base whole.reverse) (Numeral.partOf base fraction)

/-- A guarded value that leaves the range does so at the top, and no rounding brings it back. -/
private theorem not_within_significant_guarded (precision : Nat) {guard units : Nat} {part : ℚ} (least : 0 ≤ part)
    (range : Within (mode.significant guard part)) (far : ¬Within (mode.guarded guard units part)) :
    ¬Within (mode.significant precision (mode.guarded guard units part)) := by
  rcases Nat.eq_zero_or_pos units with rfl | counted
  · rw [guarded, Nat.cast_zero, zero_add, significant_significant mode guard least] at far
    exact absurd range far
  · have rest := significant_nonneg mode guard least
    have one : (10 : ℚ) ^ (0 : ℤ) ≤ |units + mode.significant guard part| := by
      have unit : (1 : ℚ) ≤ units := by exact_mod_cast counted
      rw [zpow_zero, abs_of_nonneg (by linarith)]
      linarith
    have low : (10 : ℚ) ^ (0 : ℤ) ≤ |mode.guarded guard units part| := zpow_le_abs_significant mode guard one
    have nonzero : mode.guarded guard units part ≠ 0 := abs_pos.mp (lt_of_lt_of_le (by positivity) low)
    have bottom : (10 : ℚ) ^ (-maxExponent : ℤ) ≤ 10 ^ (0 : ℤ) := zpow_le_zpow_right₀ (by norm_num) (by omega)
    rw [within_iff nonzero] at far
    have high := not_lt.mp fun below => far ⟨bottom.trans low, below⟩
    exact not_within_of_high (zpow_le_abs_significant mode precision high) (Int.lt_succ _)

/-- The fraction is the quotient of its digits and a power of the base. -/
theorem gives_fraction (positive : 0 < base) (fraction : List Nat) (precision : Nat) (mode : Rounding) :
    Gives .overflow (mode.significant precision (Numeral.partOf base fraction))
      ((ofInt (Digits.valueOf base fraction)).div (ofInt (Nat.pow base fraction.length)) precision mode) := by
  have divisor : (ofInt (Nat.pow base fraction.length)).isZero = false := by
    have power : ((Nat.pow base fraction.length : Nat) : Int) ≠ 0 := by exact_mod_cast (Nat.pow_pos positive).ne'
    rw [ofInt, isZero_normal, decide_eq_false power]
  have quotient : (ofInt (Digits.valueOf base fraction)).toRat / (ofInt (Nat.pow base fraction.length)).toRat =
      Numeral.partOf base fraction := by
    have power : ((Nat.pow base fraction.length : Nat) : ℚ) = (base : ℚ) ^ fraction.length := Nat.cast_pow ..
    rw [toRat_ofInt, toRat_ofInt, Digits.valueOf_eq, Numeral.partOf, Int.cast_natCast, Int.cast_natCast, power]
  rw [← quotient]
  exact gives_div divisor precision mode

/-- The magnitude of a numeral, rounded. -/
private theorem reads_magnitude (positive : 0 < base) (mode : Rounding) (precision : Nat) (negative : Bool)
    (whole : List Nat)
    (exponent : Int) (range : Within (mode.significant (guardedDigits precision) (Numeral.partOf base fraction))) :
    Gives (.refused .exponentOutOfRange) (mode.significant precision (lastRounded mode precision base whole fraction))
      (do inRange ((← unsignedIn base ⟨negative, whole, fraction, exponent⟩ precision mode).rounded precision mode).checked) := by
  have units : (ofInt (Digits.valueOf base whole)).toRat = (Nat.ofDigits base whole.reverse : Nat) := by
    rw [toRat_ofInt, Digits.valueOf_eq, Int.cast_natCast]
  by_cases nothing : fraction = []
  · have given := gives_rounded (normal_ofInt (Digits.valueOf base whole)) precision mode
    rw [units] at given
    simp only [unsignedIn, lastRounded, nothing, List.isEmpty_nil, if_true]
    exact given.inRange
  · obtain ⟨part, divided, written, same⟩ := (gives_fraction positive fraction (guardedDigits precision) mode).within range
    have sum := gives_add (normal_ofInt (Digits.valueOf base whole)) written (guardedDigits precision) mode
    rw [units, same] at sum
    have formed : unsignedIn base ⟨negative, whole, fraction, exponent⟩ precision mode =
        inRange ((ofInt (Digits.valueOf base whole)).add part (guardedDigits precision) mode) := by
      simp only [unsignedIn, List.isEmpty_iff, nothing, if_false, divided]
      rfl
    rw [lastRounded, if_neg nothing, formed]
    by_cases near : Within (mode.guarded (guardedDigits precision) (Nat.ofDigits base whole.reverse) (Numeral.partOf base fraction))
    · obtain ⟨value, added, proper, held⟩ := sum.within near
      have given := gives_rounded proper precision mode
      rw [held] at given
      rw [added]
      exact given.inRange
    · have beyond := not_within_significant_guarded precision (Numeral.partOf_nonneg base fraction) range near
      rw [sum.beyond near]
      exact ⟨fun within => absurd within beyond, fun _ => rfl⟩

private theorem unsignedIn_of_faint {exponent : Int} (positive : 0 < base)
    (faint : ¬Within (mode.significant (guardedDigits precision) (Numeral.partOf base fraction))) :
    unsignedIn base ⟨negative, whole, fraction, exponent⟩ precision mode = .error (.refused .exponentOutOfRange) := by
  have some : fraction ≠ [] := by
    rintro rfl
    refine faint (.inl ?_)
    simp [Numeral.partOf]
  have divided := (gives_fraction positive fraction (guardedDigits precision) mode).beyond faint
  simp only [unsignedIn, List.isEmpty_iff, some, if_false, divided]
  rfl

/-- The rounding of a numeral differs from that of its value: the sign turns the direction around, a tie that the guard
digits make goes astray, or the largest precision of 32 bits leaves no guard digits. -/
inductive Skewed (mode : Rounding) (precision : Nat) (negative : Bool) (value last : ℚ) : Prop where
  | turned (side : mode = .ceiling ∨ mode = .floor) (below : negative = true)
      (inexact : mode.significant precision value ≠ value)
  | tied (toNearest : mode.isNearest = true) (room : precision < Limits.precisionMax)
      (lost : LostTie mode precision value last)
  | unguarded (toNearest : mode.isNearest = true) (full : Limits.precisionMax ≤ precision)
      (apart : mode.significant precision last ≠ mode.significant precision value)

/-- The number that the digits stand for, without its sign. -/
def magnitudeIn (base : Nat) (whole fraction : List Nat) : ℚ :=
  (Nat.ofDigits base whole.reverse : Nat) + Numeral.partOf base fraction

private theorem lastRounded_nil (mode : Rounding) (precision base : Nat) (whole : List Nat) :
    lastRounded mode precision base whole [] = magnitudeIn base whole [] := by
  simp [lastRounded, magnitudeIn, Numeral.partOf]

private theorem place_guardedDigits_le (precision : Nat) (value : ℚ) :
    Rounding.place (guardedDigits precision) value ≤ Rounding.place precision value := by
  unfold Rounding.place guardedDigits
  omega

private theorem place_guardedDigits_lt (room : precision < Limits.precisionMax) (value : ℚ) :
    Rounding.place (guardedDigits precision) value < Rounding.place precision value := by
  unfold Rounding.place guardedDigits
  unfold Limits.precisionMax at *
  omega

private theorem significant_lastRounded_of_directed (directed : mode.isNearest = false)
    (most : Numeral.partOf base fraction < 1) :
    mode.significant precision (lastRounded mode precision base whole fraction) =
      mode.significant precision (magnitudeIn base whole fraction) := by
  by_cases nothing : fraction = []
  · rw [nothing, lastRounded_nil]
  · rw [lastRounded, if_neg nothing]
    exact significant_guarded_of_directed directed (Numeral.partOf_nonneg base fraction) most (place_guardedDigits_le _ _)

private theorem significant_lastRounded_iff_of_nearest (toNearest : mode.isNearest = true)
    (room : precision < Limits.precisionMax)
    (most : Numeral.partOf base fraction < 1) :
    mode.significant precision (lastRounded mode precision base whole fraction) =
        mode.significant precision (magnitudeIn base whole fraction) ↔
      ¬LostTie mode precision (magnitudeIn base whole fraction) (lastRounded mode precision base whole fraction) := by
  by_cases nothing : fraction = []
  · rw [nothing, lastRounded_nil]
    refine iff_of_true rfl fun lost => ?_
    rcases lost.astray with ⟨impossible, -⟩ | ⟨-, impossible⟩ <;> exact impossible.false
  · rw [lastRounded, if_neg nothing]
    exact significant_guarded_iff_of_nearest toNearest (Numeral.partOf_nonneg base fraction) most (place_guardedDigits_lt room _)

/-- What one mode leaves alone is left alone by all of them. -/
private theorem significant_eq_self_of_eq {other : Rounding} (same : mode.significant precision value = value) :
    other.significant precision value = value :=
  significant_eq_self same.symm le_rfl

/-- Rounding up and rounding down agree on what they leave alone and on nothing else. -/
private theorem significant_mirrored_iff (side : mode = .ceiling ∨ mode = .floor) (precision : Nat)
    (least : 0 ≤ value) :
    mode.significant precision value = mode.mirrored.significant precision value ↔
      mode.significant precision value = value := by
  have down : Rounding.floor.significant precision value ≤ value := significant_le_self (fun _ => rfl) precision least
  have up : value ≤ Rounding.ceiling.significant precision value := self_le_significant (fun _ => rfl) precision least
  constructor
  · rcases side with rfl | rfl
    · intro same
      exact le_antisymm (same.le.trans down) up
    · intro same
      exact le_antisymm down (up.trans same.ge)
  · intro same
    rw [same, significant_eq_self_of_eq same]

private theorem mirrored_eq_self (noSide : ¬(mode = .ceiling ∨ mode = .floor)) : mode.mirrored = mode := by
  cases mode <;> first | rfl | simp at noSide

private theorem magnitudeIn_nonneg (base : Nat) (whole fraction : List Nat) : 0 ≤ magnitudeIn base whole fraction :=
  add_nonneg (Nat.cast_nonneg _) (Numeral.partOf_nonneg base fraction)

private theorem significant_withSign (noSide : ¬(mode = .ceiling ∨ mode = .floor)) (precision : Nat) (negative : Bool)
    (value : ℚ) : mode.significant precision (withSign negative value) = withSign negative (mode.significant precision value) := by
  unfold withSign
  split
  · rw [significant_neg, mirrored_eq_self noSide]
  · rfl

/-- The sign may be put on after the rounding unless the rounding is skewed. -/
private theorem withSign_significant_iff (mode : Rounding) (precision : Nat) (negative : Bool) (whole : List Nat)
    (most : Numeral.partOf base fraction < 1) :
    withSign negative (mode.significant precision (lastRounded mode precision base whole fraction)) =
        mode.significant precision (withSign negative (magnitudeIn base whole fraction)) ↔
      ¬Skewed mode precision negative (magnitudeIn base whole fraction)
        (lastRounded mode precision base whole fraction) := by
  by_cases side : mode = .ceiling ∨ mode = .floor
  · have directed : mode.isNearest = false := by
      rcases side with rfl | rfl <;> rfl
    have skewed {value last : ℚ} : Skewed mode precision negative value last ↔
        negative = true ∧ mode.significant precision value ≠ value := by
      constructor
      · rintro (⟨_, below, inexact⟩ | ⟨toNearest, _⟩ | ⟨toNearest, _⟩)
        · exact ⟨below, inexact⟩
        all_goals cases directed.symm.trans toNearest
      · rintro ⟨below, inexact⟩
        exact .turned side below inexact
    rw [significant_lastRounded_of_directed directed most, skewed]
    cases negative with
    | false => exact iff_of_true rfl fun turned => nomatch turned.1
    | true =>
      have mirrored := significant_mirrored_iff side precision (magnitudeIn_nonneg base whole fraction)
      simp only [withSign, if_true, significant_neg, neg_inj, mirrored, true_and, not_not]
  · rw [significant_withSign side, withSign_inj]
    cases nearest : mode.isNearest with
    | true =>
      rcases Nat.lt_or_ge precision Limits.precisionMax with room | full
      · rw [significant_lastRounded_iff_of_nearest nearest room most, not_iff_not]
        refine ⟨.tied nearest room, ?_⟩
        rintro (⟨turned, _, _⟩ | ⟨_, _, lost⟩ | ⟨_, full, _⟩)
        · exact absurd turned side
        · exact lost
        · exact absurd room full.not_gt
      · rw [← not_iff_not, not_not]
        refine ⟨.unguarded nearest full, ?_⟩
        rintro (⟨turned, _, _⟩ | ⟨_, room, _⟩ | ⟨_, _, apart⟩)
        · exact absurd turned side
        · exact absurd room full.not_gt
        · exact apart
    | false =>
      refine iff_of_true (significant_lastRounded_of_directed nearest most) ?_
      rintro (⟨turned, _, _⟩ | ⟨toNearest, _⟩ | ⟨toNearest, _⟩)
      · exact side turned
      all_goals cases nearest.symm.trans toNearest

/-- How a numeral is read in a base other than ten. Its value is rounded once, unless the rounding is skewed, and the
numeral is refused where that leaves the range or where what is held of the fraction does. -/
structure ReadRounded (mode : Rounding) (precision : Nat) (negative : Bool) (value last held : ℚ)
    (outcome : Except (Failure NumeralError) Decimal) : Prop where
  rounded : Within held → ¬Skewed mode precision negative value last →
    Gives (.refused .exponentOutOfRange) (mode.significant precision (withSign negative value)) outcome
  skewed : Within held → Skewed mode precision negative value last →
    Gives (.refused .exponentOutOfRange) (withSign negative (mode.significant precision last)) outcome ∧
      withSign negative (mode.significant precision last) ≠ mode.significant precision (withSign negative value)
  faint : ¬Within held → outcome = .error (.refused .exponentOutOfRange)

private theorem readRounded (least : 2 ≤ base) (most : base ≤ 36) (other : base ≠ 10)
    (padded : Text.Padded core text.toList)
    (spelled : Numeral.SpellsIn base negative whole fraction core) (precision : Nat) (mode : Rounding) :
    ReadRounded mode precision negative (magnitudeIn base whole fraction)
      (lastRounded mode precision base whole fraction)
      (mode.significant (guardedDigits precision) (Numeral.partOf base fraction)) (parseIn base text precision mode) := by
  have read : Numeral.read base text = .ok ⟨negative, whole, fraction, 0⟩ :=
    (Numeral.read_eq_ok_iff least most other).mpr ⟨rfl, core, padded, spelled⟩
  have agree := withSign_significant_iff mode precision negative whole (spelled.partOf_lt_one least)
  have formed : parseIn base text precision mode =
      (do
        let value ← (do
          inRange ((← unsignedIn base ⟨negative, whole, fraction, 0⟩ precision mode).rounded precision mode).checked)
        return if negative then value.neg else value) := by
    simp only [parseIn, other, if_false, read, bind_assoc]
    rfl
  rw [formed]
  by_cases faint : Within (mode.significant (guardedDigits precision) (Numeral.partOf base fraction))
  · have read := (reads_magnitude (by omega) mode precision negative whole 0 faint).withSign negative
    refine ⟨fun _ straight => ?_, fun _ skewed => ⟨read, mt agree.mp (not_not.mpr skewed)⟩, absurd faint⟩
    rwa [← agree.mpr straight]
  · refine ⟨fun range => absurd range faint, fun range => absurd range faint, fun _ => ?_⟩
    rw [unsignedIn_of_faint (by omega) faint]
    rfl

/-- How a numeral in base ten is read: what its value is decides whether it is within range, and only then it is
rounded. The magnitude of the least exponent of 64 bits overflows. -/
structure ReadExactly (mode : Rounding) (precision : Nat) (exponent : Int) (value : ℚ)
    (outcome : Except (Failure NumeralError) Decimal) : Prop where
  rounded : exponent.natAbs ≤ maxExponent → Within value →
    ∃ result, outcome = .ok result ∧ result.Normal ∧ result.toRat = mode.significant precision value
  beyond : exponent.natAbs ≤ maxExponent → ¬Within value → outcome = .error (.refused .exponentOutOfRange)
  overlong : maxExponent < exponent.natAbs → exponent ≠ -Limits.integerBound →
    outcome = .error (.refused .exponentOutOfRange)
  least : exponent = -Limits.integerBound → outcome = .error .overflow

private theorem readExactly {exponent : Int} (padded : Text.Padded core text.toList)
    (denotes : Numeral.Denotes exponent value core) (precision : Nat) (mode : Rounding) :
    ReadExactly mode precision exponent value (parseIn 10 text precision mode) := by
  obtain @⟨negative, whole, fraction, _, _, spelled⟩ := denotes
  have same := toRat_ofNumeral negative whole fraction exponent
  have read (small : exponent.natAbs ≤ maxExponent) : parseIn 10 text precision mode =
      (do return (← inRange (ofNumeral negative whole fraction exponent).checked).rounded precision mode) := by
    rw [parseIn, if_pos rfl, parse_of_read (spelled.read_eq padded small)]
  constructor
  · intro small range
    rw [← same, ← inRange_iff_toRat] at range
    rw [read small, checked_of_inRange range, ← same]
    exact ⟨_, rfl, normal_rounded (normal_is_normal ..) _ _, toRat_rounded ..⟩
  · intro small far
    rw [← same, ← inRange_iff_toRat] at far
    rw [read small, checked_of_not_inRange far]
    rfl
  · intro overlong other
    rw [parseIn, if_pos rfl, parse, spelled.read_of_not_admitted padded overlong.not_ge, Numeral.refusal, if_neg other]
    rfl
  · intro least
    have overlong : ¬Numeral.Admitted exponent := by
      unfold Numeral.Admitted maxExponent Limits.integerBound at *
      omega
    rw [parseIn, if_pos rfl, parse, spelled.read_of_not_admitted padded overlong, Numeral.refusal, if_pos least]
    rfl

/-- Numerals are rounded as they are read, once in base ten and, where no rounding is skewed, in all other bases. -/
theorem numerals_rounded (padded : Text.Padded core text.toList) (precision : Nat) (mode : Rounding) :
    (∀ {exponent : Int} {value : ℚ}, Numeral.Denotes exponent value core →
        ReadExactly mode precision exponent value (parseIn 10 text precision mode)) ∧
      ∀ {base : Nat} {negative : Bool} {whole fraction : List Nat}, 2 ≤ base → base ≤ 36 → base ≠ 10 →
        Numeral.SpellsIn base negative whole fraction core →
          ReadRounded mode precision negative (magnitudeIn base whole fraction)
            (lastRounded mode precision base whole fraction)
            (mode.significant (guardedDigits precision) (Numeral.partOf base fraction)) (parseIn base text precision mode) :=
  ⟨fun denotes => readExactly padded denotes precision mode,
    fun least most other spelled => readRounded least most other padded spelled precision mode⟩

/-- A third in base three. -/
theorem numerals_rounded_third :
    Text.Padded "0.1".toList "0.1".toList ∧ Numeral.SpellsIn 3 false [0] [1] "0.1".toList ∧
      parseIn 3 "0.1" 5 .halfEven = .ok ⟨33333, -5⟩ ∧
      ReadRounded .halfEven 5 false (magnitudeIn 3 [0] [1]) (lastRounded .halfEven 5 3 [0] [1])
        (Rounding.halfEven.significant 9 (Numeral.partOf 3 [1])) (parseIn 3 "0.1" 5 .halfEven) := by
  have padded := Text.padded_self "0.1".toList
  have digits : Numeral.MantissaIn 3 [0] [1] (['0'] ++ '.' :: ['1']) := .pointed (by decide) (by decide) (by decide)
  have spelled : Numeral.SpellsIn 3 false [0] [1] "0.1".toList := .mk (.bare _) digits
  exact ⟨padded, spelled, by decide +kernel,
    (numerals_rounded padded 5 .halfEven).2 (by decide) (by decide) (by decide) spelled⟩

/-- The binary digits of a half and the least bit of a part of one that is written with so many places. -/
def halfAndBit : List Nat := 1 :: List.replicate 21 0 ++ [1]

/-- A third below zero has its last digit kept when it is rounded up, but the sign is put on after the rounding. A
little more than two and a half is nearer to three, but that does not show in the digits that guard the rounding. -/
theorem numerals_misrounded :
    Numeral.SpellsIn 3 true [0] [1] "-0.1".toList ∧ parseIn 3 "-0.1" 5 .ceiling = .ok ⟨-33334, -5⟩ ∧
      Rounding.ceiling.significant 5 (withSign true (magnitudeIn 3 [0] [1])) = toRat ⟨-33333, -5⟩ ∧
      Numeral.SpellsIn 2 false [1, 0] halfAndBit "10.10000000000000000000001".toList ∧
      parseIn 2 "10.10000000000000000000001" 1 .halfEven = .ok ⟨2, 0⟩ ∧
      Rounding.halfEven.significant 1 (withSign false (magnitudeIn 2 [1, 0] halfAndBit)) = toRat ⟨3, 0⟩ := by
  have third : withSign true (magnitudeIn 3 [0] [1]) = toRat ⟨-1, 0⟩ / toRat ⟨3, 0⟩ := by
    norm_num [withSign, magnitudeIn, Numeral.partOf, toRat, Nat.ofDigits]
  have half : withSign false (magnitudeIn 2 [1, 0] halfAndBit) = toRat ⟨20971521, 0⟩ / toRat ⟨8388608, 0⟩ := by
    have bits : Nat.ofDigits 2 halfAndBit.reverse = 4194305 := by decide
    have places : halfAndBit.length = 23 := by decide
    norm_num [withSign, magnitudeIn, Numeral.partOf, toRat, bits, places, Nat.ofDigits]
  rw [third, half]
  have thirdDigits : Numeral.MantissaIn 3 [0] [1] (['0'] ++ '.' :: ['1']) :=
    .pointed (by decide) (by decide) (by decide)
  have halfDigits : Numeral.MantissaIn 2 [1, 0] halfAndBit (['1', '0'] ++ '.' :: ('1' :: List.replicate 21 '0' ++ ['1'])) :=
    .pointed (by decide) (by decide) (by decide)
  refine ⟨.mk (.minus _) thirdDigits, by decide +kernel, ?_, .mk (.bare _) halfDigits, by decide +kernel, ?_⟩
  · exact ((gives_div rfl 5 .ceiling).toRat_eq (by decide +kernel)).symm
  · exact ((gives_div rfl 1 .halfEven).toRat_eq (by decide +kernel)).symm

end Decimal

end Dialogue
