import Dialogue.Proofs.DecimalOrder

/-! Decimals that come out of the operations. Every one of them is in normal form, so the order of the numbers tells
two of them apart wherever their parts differ, and a difference shows the order by its sign however it is rounded. -/

namespace Dialogue

namespace Rounding

variable {x : ℚ}

private theorem significant_pos (mode : Rounding) (precision : Nat) (positive : 0 < x) :
    0 < mode.significant precision x := by
  have unit : (0 : ℚ) < 10 ^ Int.log 10 x := by positivity
  exact unit.trans_le (significant_bounds mode precision positive).1

private theorem significant_neg_of_neg (mode : Rounding) (precision : Nat) (negative : x < 0) :
    mode.significant precision x < 0 := by
  have mirror := significant_neg mode precision (-x)
  rw [neg_neg] at mirror
  rw [mirror, neg_lt_zero]
  exact significant_pos mode.mirrored precision (neg_pos.mpr negative)

/-- No rounding takes a number to zero or past it. -/
theorem compare_significant_zero (mode : Rounding) (precision : Nat) (x : ℚ) :
    compare (mode.significant precision x) 0 = compare x 0 := by
  rcases lt_trichotomy x 0 with below | rfl | above
  · rw [compare_lt_iff_lt.mpr below, compare_lt_iff_lt.mpr (significant_neg_of_neg mode precision below)]
  · rw [significant_zero]
  · rw [compare_gt_iff_gt.mpr above, compare_gt_iff_gt.mpr (significant_pos mode precision above)]

end Rounding

namespace Decimal

open Rounding

/-- The decimals that are made of parts, integers and texts, and those that operations make of them. -/
inductive Built : Decimal → Prop
  | ofParts {mantissa exponent : Int} {d : Decimal}
      (made : ofParts mantissa exponent = (.ok d : Except (Failure ArithmeticError) Decimal)) : Built d
  | ofInt (value : Int) : Built (ofInt value)
  | parse {text : String} {d : Decimal} (read : parse text = .ok d) : Built d
  | parseIn {base precision : Nat} {text : String} {mode : Rounding} {d : Decimal}
      (read : parseIn base text precision mode = .ok d) : Built d
  | round {a d : Decimal} {precision : Nat} {mode : Rounding} (built : Built a)
      (rounded : a.round precision mode = (.ok d : Except (Failure ArithmeticError) Decimal)) : Built d
  | neg {a : Decimal} (built : Built a) : Built a.neg
  | abs {a : Decimal} (built : Built a) : Built a.abs
  | add {a b d : Decimal} {precision : Nat} {mode : Rounding} (first : Built a) (second : Built b)
      (sum : a.add b precision mode = .ok d) : Built d
  | sub {a b d : Decimal} {precision : Nat} {mode : Rounding} (first : Built a) (second : Built b)
      (difference : a.sub b precision mode = .ok d) : Built d
  | mul {a b d : Decimal} {precision : Nat} {mode : Rounding} (first : Built a) (second : Built b)
      (product : a.mul b precision mode = .ok d) : Built d
  | div {a b d : Decimal} {precision : Nat} {mode : Rounding} (first : Built a) (second : Built b)
      (quotient : a.div b precision mode = .ok d) : Built d
  | rem {a b d : Decimal} (first : Built a) (second : Built b) (remainder : a.rem b = .ok d) : Built d

variable {a b c d : Decimal} {precision : Nat} {mode : Rounding}

private theorem normal_abs (written : a.Normal) : a.abs.Normal := by
  unfold Normal at written ⊢
  simp only [Decimal.abs]
  omega

theorem Built.normal (built : Built d) : d.Normal := by
  induction built with
  | ofParts made =>
    obtain ⟨rfl, -⟩ := held_eq_ok made
    exact normal_is_normal ..
  | ofInt => exact normal_is_normal ..
  | parse read => exact normal_parse read
  | parseIn read => exact normal_parseIn read
  | round _ rounded ih =>
    rcases round_eq_ok rounded with rfl | ⟨rfl, -⟩
    · exact normal_rounded ih ..
    · exact ih
  | neg _ ih => exact normal_neg ih
  | abs _ ih => exact normal_abs ih
  | add _ _ sum first second => exact normal_add first second sum
  | sub _ _ difference first second => exact normal_sub first second difference
  | mul _ _ product => exact normal_mul product
  | div _ _ quotient => exact normal_div quotient
  | rem _ _ remainder first => exact normal_rem first remainder

/-- Decimals in normal form compare as equal where they are the same, and only there. -/
theorem Normal.cmp_eq_iff (first : a.Normal) (second : b.Normal) :
    a.cmp b = .eq ↔ a.mantissa = b.mantissa ∧ a.exponent = b.exponent := by
  rw [cmp_eq_compare, compare_eq_iff_eq]
  constructor
  · intro same
    rw [first.eq_of_toRat_eq second same]
    exact ⟨rfl, rfl⟩
  · rintro ⟨mantissa, exponent⟩
    rw [toRat, toRat, mantissa, exponent]

private theorem cmp_swap (a b : Decimal) : (a.cmp b).swap = b.cmp a := by
  rw [cmp_eq_compare, cmp_eq_compare, ← Std.OrientedCmp.eq_swap]

private theorem cmp_trans (first : (a.cmp b).isLE) (second : (b.cmp c).isLE) : (a.cmp c).isLE := by
  rw [cmp_eq_compare] at *
  exact Std.TransCmp.isLE_trans first second

theorem compare_sign_zero (d : Decimal) : compare d.sign 0 = compare d.toRat 0 := by
  rcases sign_cases d with ⟨down, sign⟩ | ⟨zero, sign⟩ | ⟨up, sign⟩
  · rw [sign, compare_lt_iff_lt.mpr down]
    rfl
  · rw [sign, zero]
    rfl
  · rw [sign, compare_gt_iff_gt.mpr up]
    rfl

/-- A difference that is rounded keeps the side of zero that the exact one is on. -/
theorem Normal.sign_sub (first : a.Normal) (second : b.Normal) (difference : a.sub b precision mode = .ok d) :
    compare d.sign 0 = a.cmp b := by
  have rounded := (sums_rounded_once first second precision mode).2.1.toRat_eq difference
  rw [compare_sign_zero, rounded, compare_significant_zero, cmp_eq_compare]
  exact compare_congr sub_nonpos sub_nonneg

/-- The order of two decimals that operations have built is that of their numbers, it is total and tells apart all
but the same parts, and rounded differences show it. -/
theorem built_ordered_by_value (first : Built a) (second : Built b) :
    a.Normal ∧ b.Normal ∧
      a.cmp b = compare a.toRat b.toRat ∧
      (a.cmp b = .eq ↔ a.mantissa = b.mantissa ∧ a.exponent = b.exponent) ∧
      ((a.cmp b).swap = b.cmp a ∧ ∀ c, Built c → (a.cmp b).isLE → (b.cmp c).isLE → (a.cmp c).isLE) ∧
      ∀ (precision : Nat) (mode : Rounding) (difference : Decimal),
        a.sub b precision mode = .ok difference → compare difference.sign 0 = a.cmp b := by
  refine ⟨first.normal, second.normal, cmp_eq_compare a b, first.normal.cmp_eq_iff second.normal,
    ⟨cmp_swap a b, fun _ _ => cmp_trans⟩, ?_⟩
  intro precision mode difference
  exact first.normal.sign_sub second.normal

/-- A third is above a numeral that is longer and a thousand places down, and one digit of the difference shows it. -/
theorem built_ordered_by_value_third :
    Built ⟨333, -3⟩ ∧ Built ⟨-25, -1001⟩ ∧ sub ⟨333, -3⟩ ⟨-25, -1001⟩ 1 .floor = .ok ⟨3, -1⟩ ∧
      compare (⟨3, -1⟩ : Decimal).sign 0 = cmp ⟨333, -3⟩ ⟨-25, -1001⟩ ∧
      cmp ⟨333, -3⟩ ⟨-25, -1001⟩ = compare (toRat ⟨333, -3⟩) (toRat ⟨-25, -1001⟩) := by
  have quotient : (ofInt 1).div (ofInt 3) 3 .halfEven = .ok ⟨333, -3⟩ := by decide +kernel
  have read : parse " -2.500e-1000" = .ok ⟨-25, -1001⟩ := by decide +kernel
  have third : Built ⟨333, -3⟩ := .div (.ofInt 1) (.ofInt 3) quotient
  have faint : Built ⟨-25, -1001⟩ := .parse read
  have rounded : sub ⟨333, -3⟩ ⟨-25, -1001⟩ 1 .floor = .ok ⟨3, -1⟩ := by decide +kernel
  obtain ⟨-, -, value, -, -, shown⟩ := built_ordered_by_value third faint
  exact ⟨third, faint, rounded, shown 1 .floor _ rounded, value⟩

end Decimal

end Dialogue
