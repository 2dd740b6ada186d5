import Dialogue.Proofs.DecimalOrder

/-! Remainders. Whichever way the remainder is worked out, it is the one that the division toward zero leaves, and it
has no more digits than one of the operands, so the rounding of a result leaves it alone. It is refused where the
exponents are too far apart for an integer of 64 bits. -/

namespace Dialogue

/-- What a division whose quotient is a whole number leaves: less than the divisor, on the side of the dividend. -/
structure Remains (dividend divisor : ℚ) (whole : ℤ) (rest : ℚ) : Prop where
  split : dividend = whole * divisor + rest
  small : |rest| < |divisor|
  direction : rest = 0 ∨ 0 < rest ∧ 0 < dividend ∨ rest < 0 ∧ dividend < 0

namespace Remains

open Rounding

variable {x y rest other : ℚ} {whole again : ℤ}

theorem divisor_ne_zero (remains : Remains x y whole rest) : y ≠ 0 :=
  abs_pos.mp ((abs_nonneg rest).trans_lt remains.small)

theorem div_eq (remains : Remains x y whole rest) : x / y = whole + rest / y := by
  rw [remains.split, add_div, mul_div_cancel_right₀ _ remains.divisor_ne_zero]

/-- The rest makes up a part of one on the side of the quotient. -/
private theorem part_direction (remains : Remains x y whole rest) :
    rest / y = 0 ∨ 0 < rest / y ∧ 0 < x / y ∨ rest / y < 0 ∧ x / y < 0 := by
  rcases remains.direction with rfl | ⟨up, above⟩ | ⟨down, below⟩
  · exact .inl (zero_div y)
  · rcases lt_or_gt_of_ne remains.divisor_ne_zero with negative | positive
    · exact .inr (.inr ⟨div_neg_of_pos_of_neg up negative, div_neg_of_pos_of_neg above negative⟩)
    · exact .inr (.inl ⟨div_pos up positive, div_pos above positive⟩)
  · rcases lt_or_gt_of_ne remains.divisor_ne_zero with negative | positive
    · exact .inr (.inl ⟨div_pos_of_neg_of_neg down negative, div_pos_of_neg_of_neg below negative⟩)
    · exact .inr (.inr ⟨div_neg_of_neg_of_pos down positive, div_neg_of_neg_of_pos below positive⟩)

/-- The quotient is the one toward zero. -/
theorem whole_eq (remains : Remains x y whole rest) : whole = inward (x / y) := by
  have part : |rest / y| < 1 := by
    rw [abs_div, div_lt_one (abs_pos.mpr remains.divisor_ne_zero)]
    exact remains.small
  obtain ⟨least, most⟩ := abs_lt.mp part
  have quotient := remains.div_eq
  unfold inward
  rcases remains.part_direction with none | ⟨up, above⟩ | ⟨down, below⟩
  · rw [quotient, none, add_zero, Int.floor_intCast, Int.ceil_intCast, ite_self]
  · rw [if_pos above.le, eq_comm, Int.floor_eq_iff]
    constructor <;> linarith
  · rw [if_neg below.not_ge, eq_comm, Int.ceil_eq_iff]
    constructor <;> linarith

theorem unique (first : Remains x y whole rest) (second : Remains x y again other) : again = whole ∧ other = rest := by
  have same : again = whole := second.whole_eq.trans first.whole_eq.symm
  refine ⟨same, ?_⟩
  have split := second.split
  rw [same] at split
  linarith [first.split]

end Remains

/-- The integer remainder toward zero, in any unit. -/
theorem remains_tmod (m : ℤ) {n : ℤ} (divisor : n ≠ 0) {unit : ℚ} (positive : 0 < unit) :
    Remains (m * unit) (n * unit) (m.tdiv n) (m.tmod n * unit) where
  split := by
    have parts : (m : ℚ) = n * m.tdiv n + m.tmod n := by exact_mod_cast (Int.mul_tdiv_add_tmod m n).symm
    conv_lhs => rw [parts]
    ring
  small := by
    rw [abs_mul, abs_mul, mul_lt_mul_iff_of_pos_right (abs_pos.mpr positive.ne')]
    have size : (m.tmod n).natAbs < n.natAbs := by
      rw [Int.natAbs_tmod]
      exact Nat.mod_lt _ (by omega)
    rw [← Int.cast_abs, ← Int.cast_abs, Int.cast_lt, Int.abs_eq_natAbs, Int.abs_eq_natAbs]
    exact_mod_cast size
  direction := by
    have sign := Int.sign_tmod m n
    split_ifs at sign with whole
    · exact .inl (by rw [Int.sign_eq_zero_iff_zero.mp sign, Int.cast_zero, zero_mul])
    · right
      rcases lt_trichotomy m 0 with below | zero | above
      · rw [Int.sign_eq_neg_one_of_neg below, Int.sign_eq_neg_one_iff_neg] at sign
        right
        exact ⟨mul_neg_of_neg_of_pos (by exact_mod_cast sign) positive,
          mul_neg_of_neg_of_pos (by exact_mod_cast below) positive⟩
      · exact absurd (zero ▸ dvd_zero n) whole
      · rw [Int.sign_eq_one_of_pos above, Int.sign_eq_one_iff_pos] at sign
        left
        exact ⟨mul_pos (by exact_mod_cast sign) positive, mul_pos (by exact_mod_cast above) positive⟩

/-- The remainder of integers toward zero is that of their magnitudes, on the side of the dividend. -/
private theorem tmod_eq_sign_mul (m n : ℤ) : m.tmod n = m.sign * (m.natAbs % n.natAbs : Nat) := by
  conv_lhs => rw [← Int.sign_mul_natAbs (m.tmod n), Int.natAbs_tmod, Int.sign_tmod]
  split
  next whole =>
    rw [Nat.mod_eq_zero_of_dvd (Int.natAbs_dvd_natAbs.mpr whole)]
    simp
  next => rfl

namespace Decimal

private theorem powMod_eq (base exponent modulus : Nat) : powMod base exponent modulus = base ^ exponent % modulus := by
  fun_induction powMod base exponent modulus with
  | case1 => rfl
  | case2 base exponent nonzero half odd ih =>
    have squared : half = base ^ (2 * (exponent / 2)) % modulus := by
      rw [pow_mul, sq, Nat.pow_mod]
      exact ih
    have split : exponent = 2 * (exponent / 2) + 1 := by omega
    rw [squared, Nat.mod_mul_mod, ← pow_succ, ← split]
  | case3 base exponent nonzero half even ih =>
    have split : exponent = 2 * (exponent / 2) := by omega
    rw [split, pow_mul, sq, Nat.pow_mod]
    exact ih

variable {a b result : Decimal}

theorem natAbs_scaledTo (d : Decimal) (place : Int) :
    (d.scaledTo place).natAbs = d.mantissa.natAbs * 10 ^ (d.exponent - place).toNat := by
  have power : Int.pow 10 (d.exponent - place).toNat = (10 ^ (d.exponent - place).toNat : Nat) := by
    push_cast
    rfl
  rw [scaledTo, power, Int.natAbs_mul, Int.natAbs_natCast]

private theorem sign_scaledTo (d : Decimal) (place : Int) : (d.scaledTo place).sign = d.mantissa.sign := by
  have power : (0 : ℤ) < Int.pow 10 (d.exponent - place).toNat := Int.pow_pos (by decide)
  rw [scaledTo, Int.sign_mul, Int.sign_eq_one_of_pos power, mul_one]

private theorem isLT_cmp_abs : a.abs.cmp b.abs = .lt ↔ |a.toRat| < |b.toRat| := by
  rw [cmp_eq_compare, compare_lt_iff_lt, toRat_abs, toRat_abs]

/-- What the division toward zero leaves, whether its parts can be held or not. -/
def rest (a b : Decimal) : Decimal := if a.abs.cmp b.abs = .lt then a else a.remainder b

/-- The remainder is the integer one of the digits down to the last place of either operand. -/
private theorem toRat_rest (first : a.exponent < Limits.integerBound) (second : b.exponent < Limits.integerBound) :
    (a.rest b).toRat = (a.scaledTo (min a.exponent b.exponent)).tmod (b.scaledTo (min a.exponent b.exponent)) *
      (10 : ℚ) ^ min a.exponent b.exponent := by
  rw [tmod_eq_sign_mul, natAbs_scaledTo, natAbs_scaledTo, sign_scaledTo, rest]
  split
  next less =>
    have lower := min_le_left a.exponent b.exponent
    have fewer := compare_scaledTo lower (min_le_right a.exponent b.exponent)
    rw [← cmp_abs, less, compare_lt_iff_lt, natAbs_scaledTo, natAbs_scaledTo] at fewer
    rw [Nat.mod_eq_of_lt fewer, ← natAbs_scaledTo, ← sign_scaledTo, Int.sign_mul_natAbs, toRat_scaledTo lower]
  next =>
    rw [remainder, lastPlace_eq first, lastPlace_eq second]
    dsimp only
    split
    next near =>
      rw [toRat_normal, min_eq_right near, powMod_eq, Nat.mul_mod_mod, sub_self, Int.toNat_zero, pow_zero, mul_one]
    next far =>
      rw [toRat_normal, min_eq_left (le_of_not_ge far), sub_self, Int.toNat_zero, pow_zero, mul_one]
      rfl

private theorem natAbs_sign_mul_le (m : ℤ) (n : Nat) : (m.sign * n).natAbs ≤ n := by
  rw [Int.natAbs_mul, Int.natAbs_natCast, Int.natAbs_sign]
  split
  · simp
  · rw [one_mul]

/-- The digits of a remainder start no further up than those of one operand and end with those of the same one. -/
private theorem digits_rest_le (a : Decimal) (nonzero : b.isZero = false) :
    (a.rest b).digits ≤ max a.digits b.digits := by
  unfold rest
  split
  next => exact le_max_left ..
  next =>
    obtain ⟨rest, same, small⟩ := remainder_eq a nonzero
    rw [same]
    refine (digits_normal_le ..).trans ((Digits.count_mono (natAbs_sign_mul_le ..)).trans ?_)
    rcases small with ⟨-, small⟩ | ⟨-, small⟩
    · exact (Digits.count_mono small.le).trans (le_max_right ..)
    · exact (Digits.count_mono small).trans (le_max_left ..)

private theorem normal_rest (written : a.Normal) (nonzero : b.isZero = false) : (a.rest b).Normal := by
  unfold rest
  split
  next => exact written
  next =>
    obtain ⟨rest, same, -⟩ := remainder_eq a nonzero
    rw [same]
    exact normal_is_normal ..

private theorem scaledTo_ne_zero (nonzero : b.isZero = false) (place : Int) : b.scaledTo place ≠ 0 := by
  have counted : b.mantissa ≠ 0 := by simpa [isZero] using nonzero
  rw [← Int.natAbs_ne_zero, natAbs_scaledTo]
  positivity

private theorem remains_rest (nonzero : b.isZero = false) (first : a.exponent < Limits.integerBound)
    (second : b.exponent < Limits.integerBound) : ∃ whole, Remains a.toRat b.toRat whole (a.rest b).toRat := by
  have unit : (0 : ℚ) < 10 ^ min a.exponent b.exponent := by positivity
  have divisor := scaledTo_ne_zero nonzero (min a.exponent b.exponent)
  have remains := remains_tmod (a.scaledTo (min a.exponent b.exponent)) divisor unit
  rw [toRat_scaledTo (min_le_left ..), toRat_scaledTo (min_le_right ..), ← toRat_rest first second] at remains
  exact ⟨_, remains⟩

/-- Where a remainder cannot be worked out with integers of 64 bits: the dividend is not its own remainder, and either
the distance of the exponents or the exponent of the remainder takes more of them. -/
structure Overflows (a b : Decimal) : Prop where
  large : |b.toRat| ≤ |a.toRat|
  far : Limits.integerBound ≤ (a.exponent - b.exponent).natAbs ∨ Limits.integerBound < (a.rest b).exponent

private theorem rem_of_not_overflows (nonzero : b.isZero = false) (first : a.exponent < Limits.integerBound)
    (second : b.exponent < Limits.integerBound) (held : ¬Overflows a b) : a.rem b = .ok (a.rest b) := by
  rw [rem, if_neg (by simp [nonzero])]
  by_cases less : a.abs.cmp b.abs = .lt
  · rw [if_pos less, rest, if_pos less]
  · have large := not_lt.mp (mt isLT_cmp_abs.mpr less)
    obtain ⟨near, low⟩ := not_or.mp fun far => held ⟨large, far⟩
    have distance : Machine.Holds (a.exponent - b.exponent).natAbs := by
      unfold Machine.Holds Limits.integerBound at *
      omega
    rw [rest, if_neg less] at low ⊢
    rw [if_neg less, lastPlace_eq first, lastPlace_eq second, Machine.integer_eq distance]
    exact if_pos (not_lt.mp low)

private theorem rem_of_overflows (nonzero : b.isZero = false) (first : a.exponent < Limits.integerBound)
    (second : b.exponent < Limits.integerBound) (overflows : Overflows a b) : a.rem b = .error .overflow := by
  have less : ¬a.abs.cmp b.abs = .lt := fun less => (isLT_cmp_abs.mp less).not_ge overflows.large
  rw [rem, if_neg (by simp [nonzero]), if_neg less, lastPlace_eq first, lastPlace_eq second]
  by_cases distance : Machine.Holds (a.exponent - b.exponent).natAbs
  · have low : Limits.integerBound < (a.rest b).exponent := by
      refine overflows.far.resolve_left fun far => ?_
      unfold Machine.Holds Limits.integerBound at *
      omega
    rw [rest, if_neg less] at low
    rw [Machine.integer_eq distance]
    exact if_neg (not_le.mpr low)
  · rw [Machine.integer_eq_overflow distance]
    rfl

/-- The remainder of two numbers is not rounded, because it has no more digits than the larger precision. -/
private theorem binary_rem {p q : Nat} {config : Config} (nonzero : b.isZero = false)
    (computed : a.rem b = .ok (a.rest b))
    (first : a.digits ≤ max p 1) (second : b.digits ≤ max q 1) :
    Scalar.binary .rem (.number ⟨a, p⟩) (.number ⟨b, q⟩) config = .ok (.number ⟨a.rest b, max p q⟩) := by
  have short : (a.rest b).digits ≤ max (max p q) 1 := by
    have fewer := digits_rest_le a nonzero
    omega
  have exact : (⟨a.rest b, max p q⟩ : Number).Exact := .inl short
  have rounded : Number.arithmetic (fun a b _ _ => a.rem b) BinaryOperation.rem.symbol ⟨a, p⟩ ⟨b, q⟩ config =
      .ok ⟨a.rest b, max p q⟩ := by
    simp only [Number.arithmetic, computed]
    exact exact.withPrecision_self config.rounding
  change Scalar.number <$> Number.arithmetic (fun a b _ _ => a.rem b) _ _ _ _ = _
  rw [rounded]
  rfl

/-- Any divisor but zero leaves the remainder that the division toward zero leaves, which is the only one, and
rounding it to the precision of a result does not change it. It is found exactly where the exponents that come up have
64 bits. -/
theorem remainder_exact (nonzero : b.isZero = false) (dividend : a.exponent < Limits.integerBound)
    (divisor : b.exponent < Limits.integerBound) :
    (a.Normal → (a.rest b).Normal) ∧
      Remains a.toRat b.toRat (Rounding.inward (a.toRat / b.toRat)) (a.rest b).toRat ∧
      (∀ whole other, Remains a.toRat b.toRat whole other →
        whole = Rounding.inward (a.toRat / b.toRat) ∧ other = (a.rest b).toRat) ∧
      (Overflows a b → a.rem b = .error .overflow) ∧
      (¬Overflows a b → a.rem b = .ok (a.rest b) ∧
        ∀ p q config, a.digits ≤ max p 1 → b.digits ≤ max q 1 →
          Scalar.binary .rem (.number ⟨a, p⟩) (.number ⟨b, q⟩) config = .ok (.number ⟨a.rest b, max p q⟩)) := by
  obtain ⟨whole, remains⟩ := remains_rest nonzero dividend divisor
  obtain rfl := remains.whole_eq
  refine ⟨fun written => normal_rest written nonzero, remains, fun _ _ => remains.unique,
    rem_of_overflows nonzero dividend divisor, fun held => ?_⟩
  have computed := rem_of_not_overflows nonzero dividend divisor held
  exact ⟨computed, fun _ _ _ => binary_rem nonzero computed⟩

/-- A dividend of eight digits and twenty zeros leaves three digits, which a precision of eight keeps. -/
theorem remainder_exact_of_long_dividend :
    isZero ⟨-613, -2⟩ = false ∧ rem ⟨-12345677, 20⟩ ⟨-613, -2⟩ = .ok ⟨-482, -2⟩ ∧
      Remains (toRat ⟨-12345677, 20⟩) (toRat ⟨-613, -2⟩)
        (Rounding.inward (toRat ⟨-12345677, 20⟩ / toRat ⟨-613, -2⟩)) (toRat ⟨-482, -2⟩) ∧
      Scalar.binary .rem (.number ⟨⟨-12345677, 20⟩, 8⟩) (.number ⟨⟨-613, -2⟩, 3⟩) {} = .ok (.number ⟨⟨-482, -2⟩, 8⟩) := by
  have nonzero : isZero ⟨-613, -2⟩ = false := by decide
  have left : rest ⟨-12345677, 20⟩ ⟨-613, -2⟩ = ⟨-482, -2⟩ := by decide +kernel
  have held : ¬Overflows ⟨-12345677, 20⟩ ⟨-613, -2⟩ := by
    rintro ⟨-, far⟩
    rw [left] at far
    revert far
    decide
  obtain ⟨-, remains, -, -, found⟩ :=
    remainder_exact (a := ⟨-12345677, 20⟩) nonzero (by decide) (by decide)
  obtain ⟨computed, numbers⟩ := found held
  rw [left] at remains computed
  have rounded := numbers 8 3 {} (by decide +kernel) (by decide +kernel)
  rw [left] at rounded
  exact ⟨nonzero, computed, remains, rounded⟩

/-- The exponents of seven and three are ten to the nineteenth apart, which takes more than 64 bits, but one remains. -/
theorem remainder_lost_to_distance :
    isZero ⟨3, -5000000000000000000⟩ = false ∧
      rem ⟨7, 5000000000000000000⟩ ⟨3, -5000000000000000000⟩ = .error .overflow ∧
      ∃ whole, Remains (toRat ⟨7, 5000000000000000000⟩) (toRat ⟨3, -5000000000000000000⟩) whole
        (toRat ⟨1, -5000000000000000000⟩) := by
  have nonzero : isZero ⟨3, -5000000000000000000⟩ = false := by decide
  have left : rest ⟨7, 5000000000000000000⟩ ⟨3, -5000000000000000000⟩ = ⟨1, -5000000000000000000⟩ := by
    decide +kernel
  obtain ⟨whole, remains⟩ := remains_rest (a := ⟨7, 5000000000000000000⟩) nonzero (by decide) (by decide)
  rw [left] at remains
  exact ⟨nonzero, by decide +kernel, whole, remains⟩

end Decimal

end Dialogue
