import Dialogue.Proofs.BuiltDecimals

/-! What the modes prescribe, said of the numbers that have few enough digits and of nothing else. Such a number
rounds to itself. Any other one lies between two of them that follow each other, and the mode chooses by its sign, by
the distances and, for the even neighbour, by the last digit. -/

namespace Dialogue

namespace Rounding

variable {mode : Rounding} {precision : Nat} {x y z unit other : ℚ} {lower least n k : ℤ}

/-- So many significant digits are enough for the number; a precision of zero counts as one. -/
def Short (precision : Nat) (z : ℚ) : Prop := ∃ n k : ℤ, z = n * 10 ^ k ∧ |n| < 10 ^ max precision 1

/-- The number lies between two short ones that follow each other. They are multiples of a unit, which is that of their
last digit. -/
structure Between (precision : Nat) (x : ℚ) (lower : ℤ) (unit : ℚ) : Prop where
  above : lower * unit < x
  below : x < (lower + 1) * unit
  lowerShort : Short precision (lower * unit)
  upperShort : Short precision ((lower + 1) * unit)
  adjacent : ∀ z, Short precision z → z ≤ lower * unit ∨ (lower + 1) * unit ≤ z

/-- Whether the mode takes the number to the upper one of its neighbours. -/
def Rises (mode : Rounding) (x : ℚ) (lower : ℤ) (unit : ℚ) : Prop :=
  let down := x - lower * unit
  let up := (lower + 1) * unit - x
  match mode with
  | halfEven => up < down ∨ up = down ∧ Odd lower
  | halfUp => up < down ∨ up = down ∧ 0 < x
  | halfDown => up < down ∨ up = down ∧ x < 0
  | towardZero => x < 0
  | awayFromZero => 0 < x
  | ceiling => True
  | floor => False

/-- The neighbour that the mode prescribes. -/
inductive Prescribed (mode : Rounding) (precision : Nat) (x : ℚ) : ℚ → Prop where
  | upper {lower : ℤ} {unit : ℚ} (between : Between precision x lower unit) (rises : mode.Rises x lower unit) :
      Prescribed mode precision x ((lower + 1) * unit)
  | lower {lower : ℤ} {unit : ℚ} (between : Between precision x lower unit) (stays : ¬mode.Rises x lower unit) :
      Prescribed mode precision x (lower * unit)

theorem Between.unit_pos (between : Between precision x lower unit) : 0 < unit := by
  have above := between.above
  have below := between.below
  linarith

/-- No short number lies between the neighbours, so there is one pair of them. -/
theorem Between.unique (first : Between precision x lower unit) (second : Between precision x least other) :
    lower = least ∧ unit = other := by
  have positive := first.unit_pos
  have above := first.above
  have below := first.below
  have above' := second.above
  have below' := second.below
  have low : lower * unit = least * other := by
    rcases first.adjacent _ second.lowerShort with order | apart
    · rcases second.adjacent _ first.lowerShort with order' | apart'
      · exact le_antisymm order' order
      · linarith
    · linarith
  have high : (lower + 1) * unit = (least + 1) * other := by
    rcases first.adjacent _ second.upperShort with apart | order
    · linarith
    · rcases second.adjacent _ first.upperShort with apart' | order'
      · linarith
      · exact le_antisymm order order'
  have same : unit = other := by linarith
  rw [← same] at low
  exact ⟨by exact_mod_cast mul_right_cancel₀ positive.ne' low, same⟩

theorem Prescribed.unique (first : Prescribed mode precision x y) (second : Prescribed mode precision x z) : y = z := by
  cases first with
  | upper between rises =>
    cases second with
    | upper between' =>
      obtain ⟨rfl, rfl⟩ := between.unique between'
      rfl
    | lower between' stays =>
      obtain ⟨rfl, rfl⟩ := between.unique between'
      exact absurd rises stays
  | lower between stays =>
    cases second with
    | upper between' rises =>
      obtain ⟨rfl, rfl⟩ := between.unique between'
      exact absurd rises stays
    | lower between' =>
      obtain ⟨rfl, rfl⟩ := between.unique between'
      rfl

/-- A full mantissa of nines may be followed by the power of ten after it. -/
private theorem short_multiple (most : |n| ≤ 10 ^ max precision 1) (k : ℤ) : Short precision (n * 10 ^ k) := by
  rcases most.lt_or_eq with small | full
  · exact ⟨n, k, rfl, small⟩
  · refine ⟨n.sign, k + (max precision 1 : Nat), ?_, ?_⟩
    · have signed : n = n.sign * 10 ^ max precision 1 := by
        rw [← full, Int.sign_mul_abs]
      conv_lhs => rw [signed]
      rw [zpow_add₀ (by norm_num), zpow_natCast]
      push_cast
      ring
    · have size : |n.sign| ≤ 1 := by
        rcases Int.sign_trichotomy n with one | zero | minus <;> simp [*]
      have power : (1 : ℤ) < 10 ^ max precision 1 := one_lt_pow₀ (by norm_num) (by omega)
      exact size.trans_lt power

theorem significant_of_short (mode : Rounding) (short : Short precision z) : mode.significant precision z = z := by
  obtain ⟨n, k, multiple, small⟩ := short
  rcases eq_or_ne z 0 with rfl | nonzero
  · exact significant_zero mode precision
  · have unit : (0 : ℚ) < 10 ^ k := by positivity
    have below : |z| < 10 ^ (k + (max precision 1 : Nat)) := by
      rw [multiple, abs_mul, abs_of_pos unit, zpow_add₀ (by norm_num), zpow_natCast, mul_comm]
      gcongr
      exact_mod_cast small
    have leading := (Int.lt_zpow_iff_log_lt (b := 10) (by decide) (abs_pos.mpr nonzero)).mp (by exact_mod_cast below)
    refine significant_eq_self multiple ?_
    unfold place
    omega

private theorem zpow_place (precision : Nat) (x : ℚ) :
    (10 : ℚ) ^ (Int.log 10 |x| + 1) = 10 ^ max precision 1 * 10 ^ place precision x := by
  rw [← zpow_natCast, ← zpow_add₀ (by norm_num), place]
  congr 1
  ring

/-- Rounding leaves no more digits than are asked for, also where it carries through all of them. -/
theorem short_significant (mode : Rounding) (precision : Nat) (x : ℚ) :
    Short precision (mode.significant precision x) := by
  apply short_multiple
  have unit : (0 : ℚ) < 10 ^ place precision x := by positivity
  have high : |x| ≤ 10 ^ (Int.log 10 |x| + 1) := by
    have next := Int.lt_zpow_succ_log_self (b := 10) (by decide) |x|
    exact_mod_cast next.le
  have bound := abs_significant_le_zpow mode precision high
  rw [zpow_place precision, significant, abs_mul, abs_of_pos unit, mul_le_mul_iff_of_pos_right unit] at bound
  exact_mod_cast bound

/-- The floor and the ceiling in units of the last digit that is kept are the neighbours. Short numbers stay in order
with what they round to, so none of them comes between. -/
private theorem between_of_not_short (long : ¬Short precision x) :
    Between precision x ⌊x / 10 ^ place precision x⌋ (10 ^ place precision x) := by
  have unit : (0 : ℚ) < 10 ^ place precision x := by positivity
  have broken : Int.fract (x / 10 ^ place precision x) ≠ 0 := by
    intro integral
    obtain ⟨n, whole⟩ := Int.fract_eq_zero_iff.mp integral
    rw [eq_div_iff unit.ne'] at whole
    apply long
    rw [← significant_eq_self whole.symm le_rfl]
    exact short_significant .floor precision x
  have down : Rounding.floor.significant precision x = ⌊x / 10 ^ place precision x⌋ * 10 ^ place precision x := rfl
  have up : Rounding.ceiling.significant precision x = (⌊x / 10 ^ place precision x⌋ + 1) * 10 ^ place precision x := by
    have next := ceil_eq_floor_add_one broken
    change (⌈x / 10 ^ place precision x⌉ : ℚ) * 10 ^ place precision x = _
    rw [next, Int.cast_add, Int.cast_one]
  have positive := (Int.fract_nonneg _).lt_of_ne' broken
  refine ⟨?_, ?_, down ▸ short_significant .floor precision x, up ▸ short_significant .ceiling precision x, ?_⟩
  · rw [← lt_div_iff₀ unit]
    exact sub_pos.mp positive
  · rw [← div_lt_iff₀ unit]
    exact Int.lt_floor_add_one _
  · intro z short
    rw [← down, ← up]
    rcases le_total z x with below | above
    · left
      rw [← significant_of_short .floor short]
      exact significant_mono .floor precision below
    · right
      rw [← significant_of_short .ceiling short]
      exact significant_mono .ceiling precision above

private theorem rises_div (positive : 0 < unit) : mode.Rises (x / unit) lower 1 ↔ mode.Rises x lower unit := by
  have down : x / unit - lower * 1 = (x - lower * unit) / unit := by
    field_simp
  have up : (lower + 1) * 1 - x / unit = ((lower + 1) * unit - x) / unit := by
    field_simp
  have negative : x / unit < 0 ↔ x < 0 := by
    rw [div_lt_iff₀ positive, zero_mul]
  cases mode <;>
    simp only [Rises, down, up, negative, div_lt_div_iff_of_pos_right positive, div_left_inj' positive.ne',
      div_pos_iff_of_pos_right positive]

/-- The distances to the floor and to the whole number after it, and the preference on a tie. -/
def Beyond (x : ℚ) (tie : Prop) : Prop := 1 - Int.fract x < Int.fract x ∨ 1 - Int.fract x = Int.fract x ∧ tie

theorem nearest_of_beyond {tie : Prop} {preferred : ℤ} (broken : Int.fract x ≠ 0) (beyond : Beyond x tie)
    (up : tie → preferred = ⌊x⌋ + 1) : nearest x preferred = ⌊x⌋ + 1 := by
  rcases beyond with nearer | ⟨equal, prefers⟩
  · rw [nearest_of_gt (by linarith), ceil_eq_floor_add_one broken]
  · rw [nearest_of_eq (by linarith), up prefers]

theorem nearest_of_not_beyond {tie : Prop} {preferred : ℤ} (within : ¬Beyond x tie) (down : ¬tie → preferred = ⌊x⌋) :
    nearest x preferred = ⌊x⌋ := by
  obtain ⟨farther, prefers⟩ := not_or.mp within
  rcases (not_lt.mp farther).eq_or_lt with equal | nearer
  · rw [nearest_of_eq (by linarith), down fun tie => prefers ⟨equal.symm, tie⟩]
  · rw [nearest_of_lt (by linarith)]

/-- What a mode prefers where there is a choice depends on the sign and on whether the floor is even. -/
private theorem preferred_of_broken (broken : Int.fract x ≠ 0) :
    (Odd ⌊x⌋ → halfEven.preferred x = ⌊x⌋ + 1) ∧ (¬Odd ⌊x⌋ → halfEven.preferred x = ⌊x⌋) ∧
      (0 < x → outward x = ⌊x⌋ + 1) ∧ (¬0 < x → outward x = ⌊x⌋) ∧
      (x < 0 → inward x = ⌊x⌋ + 1) ∧ (¬x < 0 → inward x = ⌊x⌋) := by
  have next := ceil_eq_floor_add_one broken
  have nonzero : x ≠ 0 := fun zero => broken (by simp [zero])
  have sign : 0 ≤ x ↔ 0 < x := nonzero.symm.le_iff_lt
  simp only [preferred, outward, inward, next, ← Int.not_even_iff_odd, not_not, sign]
  grind

private theorem whole_of_rises (broken : Int.fract x ≠ 0) :
    (mode.Rises x ⌊x⌋ 1 → mode.whole x = ⌊x⌋ + 1) ∧ (¬mode.Rises x ⌊x⌋ 1 → mode.whole x = ⌊x⌋) := by
  have down : x - ⌊x⌋ * 1 = Int.fract x := by
    rw [mul_one, Int.self_sub_floor]
  have up : (⌊x⌋ + 1) * 1 - x = 1 - Int.fract x := by
    rw [← down]
    ring
  obtain ⟨odd, even, outer, outer', inner, inner'⟩ := preferred_of_broken broken
  cases mode <;> simp only [Rises, down, up]
  case halfEven => exact ⟨fun far => nearest_of_beyond broken far odd, fun near => nearest_of_not_beyond near even⟩
  case halfUp => exact ⟨fun far => nearest_of_beyond broken far outer, fun near => nearest_of_not_beyond near outer'⟩
  case halfDown => exact ⟨fun far => nearest_of_beyond broken far inner, fun near => nearest_of_not_beyond near inner'⟩
  case towardZero => exact ⟨inner, inner'⟩
  case awayFromZero => exact ⟨outer, outer'⟩
  case ceiling => exact ⟨fun _ => ceil_eq_floor_add_one broken, fun never => absurd trivial never⟩
  case floor => exact ⟨False.elim, fun _ => rfl⟩

private theorem prescribed_significant (mode : Rounding) (long : ¬Short precision x) :
    Prescribed mode precision x (mode.significant precision x) := by
  have between := between_of_not_short long
  have unit := between.unit_pos
  have broken : Int.fract (x / 10 ^ place precision x) ≠ 0 := by
    have apart := (lt_div_iff₀ unit).mpr between.above
    exact (sub_pos.mpr apart).ne'
  obtain ⟨up, down⟩ := @whole_of_rises mode _ broken
  rw [rises_div unit] at up down
  by_cases rises : mode.Rises x ⌊x / 10 ^ place precision x⌋ (10 ^ place precision x)
  · rw [significant, up rises, Int.cast_add, Int.cast_one]
    exact .upper between rises
  · rw [significant, down rises]
    exact .lower between rises

end Rounding

namespace Decimal

open Rounding

variable {d a b : Decimal} {precision : Nat} {mode : Rounding}

private theorem short_toRat (short : d.digits ≤ max precision 1) : Short precision d.toRat := by
  refine ⟨d.mantissa, d.exponent, rfl, ?_⟩
  have small := Digits.lt_pow_count d.mantissa.natAbs
  have power : 10 ^ d.digits ≤ 10 ^ max precision 1 := Nat.pow_le_pow_right (by decide) short
  rw [Int.abs_eq_natAbs]
  exact_mod_cast small.trans_le power

/-- A decimal in normal form has no more digits than its number needs. -/
theorem Normal.short_toRat_iff (written : d.Normal) : Short precision d.toRat ↔ d.digits ≤ max precision 1 := by
  refine ⟨fun short => ?_, short_toRat⟩
  have same : (d.rounded precision .floor).toRat = d.toRat := by
    rw [toRat_rounded, significant_of_short .floor short]
  rw [← (normal_rounded written precision .floor).eq_of_toRat_eq written same]
  exact digits_rounded_le

theorem Normal.prescribed_rounded_iff (written : d.Normal) (long : max precision 1 < d.digits) (mode : Rounding)
    (z : ℚ) :
    Prescribed mode precision d.toRat z ↔ z = (d.rounded precision mode).toRat := by
  have prescribed := prescribed_significant mode (mt written.short_toRat_iff.mp (not_le.mpr long))
  rw [toRat_rounded]
  exact ⟨fun other => other.unique prescribed, fun same => same ▸ prescribed⟩

private theorem sign_rounded (d : Decimal) (precision : Nat) (mode : Rounding) :
    (d.rounded precision mode).sign = d.sign := by
  have side := compare_significant_zero mode precision d.toRat
  rw [← toRat_rounded, ← compare_sign_zero, ← compare_sign_zero] at side
  rcases sign_cases d with ⟨_, sign⟩ | ⟨_, sign⟩ | ⟨_, sign⟩ <;>
    rcases sign_cases (d.rounded precision mode) with ⟨_, rounded⟩ | ⟨_, rounded⟩ | ⟨_, rounded⟩ <;>
    rw [sign, rounded] at side ⊢
  all_goals exact absurd side (by decide)

private theorem rounded_mono (order : (a.cmp b).isLE) (precision : Nat) (mode : Rounding) :
    ((a.rounded precision mode).cmp (b.rounded precision mode)).isLE := by
  rw [Ordering.isLE_iff_ne_gt, cmp_eq_compare, ← ne_eq, compare_le_iff_le] at order ⊢
  rw [toRat_rounded, toRat_rounded]
  exact significant_mono mode precision order

theorem Normal.rounded_neg (written : d.Normal) (precision : Nat) (mode : Rounding) :
    d.neg.rounded precision mode = (d.rounded precision mode.mirrored).neg := by
  refine (normal_rounded (normal_neg written) ..).eq_of_toRat_eq (normal_neg (normal_rounded written ..)) ?_
  rw [toRat_rounded, toRat_neg, toRat_neg, toRat_rounded, significant_neg]

/-- A rounding comes about where 64 bits hold the power of ten above the leading digit. It keeps what has few enough
digits and gives everything else to the neighbour that the mode prescribes. So it has nothing left to do a second
time, it moves no number to zero or past it, it keeps the order, and opposites round to opposites once the two
directed modes are exchanged. -/
theorem rounds_to_prescribed (written : d.Normal) (precision : Nat) (mode : Rounding) :
    (Machine.Holds (d.adjusted + 1) → ∀ ε : Type,
      (d.round precision mode : Except (Failure ε) Decimal) = .ok (d.rounded precision mode)) ∧
      ((d.rounded precision mode).Normal ∧ (d.rounded precision mode).digits ≤ max precision 1) ∧
      (d.digits ≤ max precision 1 → d.rounded precision mode = d) ∧
      (max precision 1 < d.digits → ∀ z, Prescribed mode precision d.toRat z ↔ z = (d.rounded precision mode).toRat) ∧
      (∀ again, (d.rounded precision mode).rounded precision again = d.rounded precision mode) ∧
      ((d.rounded precision mode).sign = d.sign ∧ (d.rounded precision mode).isZero = d.isZero) ∧
      (∀ other, (d.cmp other).isLE → ((d.rounded precision mode).cmp (other.rounded precision mode)).isLE) ∧
      d.neg.rounded precision mode = (d.rounded precision mode.mirrored).neg := by
  refine ⟨fun near _ => round_eq near, ⟨normal_rounded written precision mode, digits_rounded_le⟩, rounded_of_digits_le, ?_,
    rounded_rounded, ?_, ?_, ?_⟩
  · intro long
    exact written.prescribed_rounded_iff long mode
  · exact ⟨sign_rounded d precision mode, isZero_rounded⟩
  · intro other order
    exact rounded_mono order precision mode
  · exact written.rounded_neg precision mode

/-- Halfway between two numbers of three digits, the even one is ten, where a new leading digit begins. -/
theorem rounds_to_prescribed_carrying :
    (⟨-9995, -3⟩ : Decimal).Normal ∧ max 3 1 < (⟨-9995, -3⟩ : Decimal).digits ∧
      ((⟨-9995, -3⟩ : Decimal).round 3 .halfEven : Except (Failure Empty) Decimal) = .ok ⟨-1, 1⟩ ∧
      Prescribed .halfEven 3 (toRat ⟨-9995, -3⟩) (toRat ⟨-1, 1⟩) ∧
      cmp ⟨-9995, -3⟩ ⟨-9994, -3⟩ = .lt ∧ ((rounded ⟨-9995, -3⟩ 3 .halfEven).cmp (rounded ⟨-9994, -3⟩ 3 .halfEven)).isLE := by
  have written : (⟨-9995, -3⟩ : Decimal).Normal := .inr (by decide)
  have long : max 3 1 < (⟨-9995, -3⟩ : Decimal).digits := by decide +kernel
  have rounded : (⟨-9995, -3⟩ : Decimal).rounded 3 .halfEven = ⟨-1, 1⟩ := by decide +kernel
  have order : cmp ⟨-9995, -3⟩ ⟨-9994, -3⟩ = .lt := by decide +kernel
  obtain ⟨comes, -, -, prescribed, -, -, mono, -⟩ := rounds_to_prescribed written 3 .halfEven
  have round : ((⟨-9995, -3⟩ : Decimal).round 3 .halfEven : Except (Failure Empty) Decimal) = .ok ⟨-1, 1⟩ :=
    (comes (by decide +kernel) Empty).trans (congrArg _ rounded)
  refine ⟨written, long, round, (prescribed long _).mpr ?_, order, mono _ (by rw [order]; rfl)⟩
  rw [rounded]

end Decimal

end Dialogue
