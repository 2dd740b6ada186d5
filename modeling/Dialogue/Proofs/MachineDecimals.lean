import Dialogue.Proofs.DecimalRange
import Dialogue.Proofs.RoundedArithmetic

/-! Decimals whose exponents are signed integers of 64 bits. Evaluation stops where an operation on them overflows, or
would if it did not saturate. That does not come about as long as the digits of the operands lie close together. -/

namespace Dialogue.Machine

open Results

variable {ε : Type}

/-- A decimal is held with the opposite of its exponent, before and after the zeros at its end are left out. -/
def normal (mantissa exponent : Int) : Except (Failure ε) Decimal := do
  let scale ← integer (-exponent)
  let d := Decimal.normal mantissa (-scale)
  let _ ← integer (-d.exponent)
  return d

def adjusted (d : Decimal) : Except (Failure ε) Int := do
  if d.isZero then return 0
  else
    let digits ← integer d.digits
    let further ← integer (digits - 1)
    integer (d.exponent + further)

def checked (d : Decimal) : Except (Failure ArithmeticError) Decimal := do
  if d.isZero then return d
  else
    let leading ← adjusted d
    let magnitude ← integer leading.natAbs
    if magnitude > Decimal.maxExponent then throw (.refused .overflow) else return d

def round (d : Decimal) (precision : Nat) (mode : Rounding) : Except (Failure ε) Decimal := do
  let kept := max precision 1
  if d.digits ≤ kept then return d
  else
    let dropped ← integer (d.digits - kept : Nat)
    let scale ← integer (-d.exponent - dropped)
    let _ ← integer (d.exponent + d.digits)
    normal (mode.quotient d.mantissa (Nat.pow 10 dropped.toNat)) (-scale)

/-- The operands are brought to one exponent. -/
def exactSum (a b : Decimal) : Except (Failure ε) Decimal := do
  let exponent := min a.exponent b.exponent
  let _ ← integer (a.exponent - exponent)
  let _ ← integer (b.exponent - exponent)
  normal (a.scaledTo exponent + b.scaledTo exponent) exponent

def sumByMagnitude (big small : Decimal) (precision : Nat) : Except (Failure ε) Decimal := do
  let leading ← adjusted big
  let kept ← integer (leading - max precision 1)
  let below ← integer (kept - 1)
  let reach ← integer (min big.exponent below - 2)
  let lesser ← adjusted small
  if lesser < reach then
    let last ← integer (reach - 1)
    exactSum big ⟨if small.isNegative then -1 else 1, last⟩
  else exactSum big small

/-- Rounding and the check that follows it. -/
def settle (d : Decimal) (precision : Nat) (mode : Rounding) : Except (Failure ArithmeticError) Decimal := do
  let rounded ← round d precision mode
  checked rounded

def add (a b : Decimal) (precision : Nat) (mode : Rounding) : Except (Failure ArithmeticError) Decimal := do
  if b.isZero then settle a precision mode
  else if a.isZero then settle b precision mode
  else
    let first ← adjusted a
    let second ← adjusted b
    let sum ← if second ≤ first then sumByMagnitude a b precision else sumByMagnitude b a precision
    settle sum precision mode

def guardedQuotient (a b : Decimal) (precision : Nat) : Except (Failure ε) Decimal := do
  let shift := max precision 1 + 2 + b.digits - a.digits
  let scaled := a.mantissa * Int.pow 10 shift
  let whole := scaled.tdiv b.mantissa
  let distance ← integer (a.exponent - b.exponent)
  let lowered ← integer shift
  let exponent ← integer (distance - lowered)
  if scaled.tmod b.mantissa = 0 then normal whole exponent
  else
    let tail := if a.isNegative == b.isNegative then 1 else -1
    let last ← integer (exponent - 1)
    normal (whole * 10 + tail) last

def div (a b : Decimal) (precision : Nat) (mode : Rounding) : Except (Failure ArithmeticError) Decimal := do
  if b.isZero then throw (.refused .divisionByZero)
  else if a.isZero then return .zero
  else
    let first ← adjusted a
    let second ← adjusted b
    let distance ← integer (first - second)
    let magnitude ← integer distance.natAbs
    if magnitude > Decimal.maxExponent + 1 then throw (.refused .overflow)
    else
      let quotient ← guardedQuotient a b precision
      settle quotient precision mode

/-- The digits of a decimal lie between two powers of ten, which are not both above or both below the point. -/
structure Spans (low high : Int) (d : Decimal) : Prop where
  down : low ≤ 0
  up : 1 ≤ high
  last : low ≤ d.exponent
  first : d.exponent + d.digits ≤ high

variable {a b d : Decimal} {low high mantissa exponent n : Int} {precision : Nat} {mode : Rounding}

theorem integer_of_bounds (least : -Limits.integerBound ≤ n) (most : n < Limits.integerBound) :
    integer n = (.ok n : Except (Failure ε) Int) := integer_eq ⟨least, most⟩

theorem Spans.adjusted_bounds (spans : Spans low high d) : low ≤ d.adjusted ∧ d.adjusted < high := by
  obtain ⟨down, up, last, first⟩ := spans
  have digit := Digits.count_pos d.mantissa.natAbs
  rw [Decimal.digits] at first
  unfold Decimal.adjusted Decimal.digits
  split <;> omega

private theorem spans_zero (down : low ≤ 0) (up : 1 ≤ high) : Spans low high .zero :=
  ⟨down, up, down, by simpa [Decimal.zero, Decimal.digits, Digits.count] using up⟩

theorem spans_normal (down : low ≤ 0) (up : 1 ≤ high) (last : low ≤ exponent)
    (first : exponent + Digits.count mantissa.natAbs ≤ high) : Spans low high (Decimal.normal mantissa exponent) := by
  by_cases zero : mantissa = 0
  · have plain : Decimal.normal mantissa exponent = .zero := by
      unfold Decimal.normal
      rw [if_pos zero]
    rw [plain]
    exact spans_zero down up
  · have leading := Decimal.adjusted_normal zero exponent
    have fewer := Decimal.digits_normal_le mantissa exponent
    rw [Decimal.adjusted, Decimal.isZero_normal, decide_eq_false zero, if_neg Bool.false_ne_true] at leading
    constructor <;> omega

theorem normal_eq (spans : Spans low high (Decimal.normal mantissa exponent)) (last : low ≤ exponent)
    (first : exponent ≤ high) (room : high - low < Limits.integerBound) :
    normal mantissa exponent = (.ok (Decimal.normal mantissa exponent) : Except (Failure ε) Decimal) := by
  obtain ⟨down, up, low, high⟩ := spans
  simp (disch := omega) only [normal, integer_of_bounds, ok_bind, neg_neg]
  rfl

theorem adjusted_eq (spans : Spans low high d) (room : high - low < Limits.integerBound) :
    adjusted d = (.ok d.adjusted : Except (Failure ε) Int) := by
  have bounds := spans.adjusted_bounds
  obtain ⟨down, up, last, first⟩ := spans
  unfold adjusted Decimal.adjusted at *
  split
  · rfl
  next nonzero =>
    rw [if_neg nonzero] at bounds
    have digit : 0 < d.digits := Digits.count_pos d.mantissa.natAbs
    simp (disch := omega) only [integer_of_bounds, ok_bind]

theorem checked_eq (spans : Spans low high d) (room : high - low < Limits.integerBound) :
    checked d = Failure.refusing d.checked := by
  have bounds := spans.adjusted_bounds
  have down := spans.down
  have up := spans.up
  cases zero : d.isZero with
  | true =>
    rw [checked, zero, Decimal.checked, zero]
    rfl
  | false =>
    have magnitude : integer d.adjusted.natAbs =
        (.ok (d.adjusted.natAbs : Int) : Except (Failure ArithmeticError) Int) := integer_of_bounds (by omega) (by omega)
    rw [checked, zero, if_neg Bool.false_ne_true, adjusted_eq spans room, ok_bind, magnitude, ok_bind]
    rw [Decimal.checked, zero, Bool.not_false, Bool.true_and]
    by_cases large : d.adjusted.natAbs > Decimal.maxExponent
    · rw [if_pos (by exact_mod_cast large), if_pos (decide_eq_true large)]
      rfl
    · rw [if_neg (by exact_mod_cast large), if_neg (by simpa using large)]
      rfl

theorem Spans.rounded (spans : Spans low high d) (precision : Nat) (mode : Rounding) :
    Spans low (high + 1) (d.rounded precision mode) := by
  obtain ⟨down, up, last, first⟩ := spans
  by_cases short : d.digits ≤ max precision 1
  · rw [Decimal.rounded_of_digits_le short]
    constructor <;> omega
  · have long := Nat.not_le.mp short
    have count := @Decimal.count_quotient d precision mode long
    rw [Decimal.rounded_of_lt_digits long]
    apply spans_normal down <;> split at count <;> omega

theorem round_eq (spans : Spans low high d) (room : high - low + 1 < Limits.integerBound) (precision : Nat)
    (mode : Rounding) : round d precision mode = (.ok (d.rounded precision mode) : Except (Failure ε) Decimal) := by
  have rounded := spans.rounded precision mode
  obtain ⟨down, up, last, first⟩ := spans
  unfold round
  by_cases short : d.digits ≤ max precision 1
  · rw [if_pos short, Decimal.rounded_of_digits_le short]
    rfl
  · have long := Nat.not_le.mp short
    have dropped : ((d.digits - max precision 1 : Nat) : Int) = d.digits - max precision 1 := by omega
    rw [Decimal.rounded_of_lt_digits long] at rounded ⊢
    simp (disch := omega) only [short, if_false, integer_of_bounds, ok_bind]
    rw [Int.toNat_natCast, neg_sub, sub_neg_eq_add, add_comm]
    exact normal_eq rounded (by omega) (by omega) (by omega)

/-- Each factor of ten lengthens a mantissa by a digit. -/
private theorem natAbs_mul_pow_lt (d : Decimal) (shift : Nat) :
    (d.mantissa * Int.pow 10 shift).natAbs < 10 ^ (d.digits + shift) := by
  have size : d.mantissa.natAbs < 10 ^ d.digits := Digits.lt_pow_count _
  have power : Int.pow 10 shift = 10 ^ shift := rfl
  rw [power, Int.natAbs_mul, Int.natAbs_pow, pow_add]
  exact Nat.mul_lt_mul_of_pos_right size (by positivity)

theorem Spans.natAbs_scaledTo_lt (spans : Spans low high d) (below : exponent ≤ d.exponent) :
    (d.scaledTo exponent).natAbs < 10 ^ (high - exponent).toNat := by
  obtain ⟨down, up, last, first⟩ := spans
  calc (d.scaledTo exponent).natAbs < 10 ^ (d.digits + (d.exponent - exponent).toNat) := natAbs_mul_pow_lt ..
    _ ≤ 10 ^ (high - exponent).toNat := Nat.pow_le_pow_right (by decide) (by omega)

/-- A sum has one digit more than its operands at most. -/
theorem Spans.exactSum (first : Spans low high a) (second : Spans low high b) :
    Spans low (high + 1) (a.exactSum b) := by
  have left := first.natAbs_scaledTo_lt (min_le_left a.exponent b.exponent)
  have right := second.natAbs_scaledTo_lt (min_le_right a.exponent b.exponent)
  have sum : (a.scaledTo (min a.exponent b.exponent) + b.scaledTo (min a.exponent b.exponent)).natAbs <
      10 ^ ((high - min a.exponent b.exponent).toNat + 1) := by
    rw [pow_succ]
    omega
  have count := Digits.count_le_of_lt (Nat.succ_pos _) sum
  obtain ⟨down, up, last, first⟩ := first
  obtain ⟨_, _, last', first'⟩ := second
  rw [Decimal.exactSum]
  apply spans_normal <;> omega

private theorem exactSum_eq (first : Spans low high a) (second : Spans low high b)
    (room : high - low + 1 < Limits.integerBound) :
    exactSum a b = (.ok (a.exactSum b) : Except (Failure ε) Decimal) := by
  have sum := first.exactSum second
  obtain ⟨down, up, last, first⟩ := first
  obtain ⟨_, _, last', first'⟩ := second
  rw [Decimal.exactSum] at sum ⊢
  simp (disch := omega) only [exactSum, integer_of_bounds, ok_bind]
  exact normal_eq sum (by omega) (by omega) (by omega)

theorem Spans.widen {low' high' : Int} (spans : Spans low high d) (lower : low' ≤ low) (higher : high ≤ high') :
    Spans low' high' d := by
  obtain ⟨down, up, last, first⟩ := spans
  constructor <;> omega

/-- The digit that stands in for a smaller operand is further down than what the precision takes from a larger one. -/
theorem Spans.standIn (big : Spans low high a) (small : Decimal) (precision : Nat) :
    Spans (low - precision - 5) high (small.standIn (min a.exponent (a.adjusted - max precision 1 - 1) - 2)) := by
  have bounds := big.adjusted_bounds
  obtain ⟨down, up, last, first⟩ := big
  have single : (small.standIn (min a.exponent (a.adjusted - max precision 1 - 1) - 2)).digits = 1 := by
    unfold Decimal.standIn Decimal.digits
    split <;> simp [Digits.count]
  have place : (small.standIn (min a.exponent (a.adjusted - max precision 1 - 1) - 2)).exponent =
      min a.exponent (a.adjusted - max precision 1 - 1) - 2 - 1 := rfl
  constructor <;> omega

theorem Spans.sumByMagnitude (first : Spans low high a) (second : Spans low high b) (precision : Nat) :
    Spans (low - precision - 5) (high + 1) (a.sumByMagnitude b precision) := by
  have far := first.standIn b precision
  have first : Spans (low - precision - 5) high a := first.widen (by omega) le_rfl
  unfold Decimal.sumByMagnitude
  dsimp only
  split
  · exact first.exactSum far
  · exact first.exactSum (second.widen (by omega) le_rfl)

private theorem sumByMagnitude_eq (first : Spans low high a) (second : Spans low high b)
    (room : high - low + precision + 6 < Limits.integerBound) :
    sumByMagnitude a b precision = (.ok (a.sumByMagnitude b precision) : Except (Failure ε) Decimal) := by
  have far := first.standIn b precision
  have bounds := first.adjusted_bounds
  have wide : Spans (low - precision - 5) high a := first.widen (by omega) le_rfl
  have leading := @adjusted_eq ε _ _ _ first (by omega)
  have other := @adjusted_eq ε _ _ _ second (by omega)
  have down := first.down
  have up := first.up
  have last := first.last
  have highest := first.first
  simp (disch := omega) only [sumByMagnitude, leading, other, integer_of_bounds, ok_bind]
  unfold Decimal.sumByMagnitude
  dsimp only
  split
  · exact exactSum_eq wide far (by omega)
  · exact exactSum_eq first second (by omega)

theorem Spans.of_checked (spans : Spans low high d) {result : Decimal} (found : d.checked = .ok result) :
    Spans low high result := by
  obtain ⟨rfl, -⟩ := Decimal.inRange_of_checked found
  exact spans

theorem Spans.add (first : Spans low high a) (second : Spans low high b) (sum : a.add b precision mode = .ok d) :
    Spans (low - precision - 5) (high + 1 + 1) d := by
  have wide {c : Decimal} (spans : Spans low high c) : Spans (low - precision - 5) (high + 1) c :=
    spans.widen (by omega) (by omega)
  unfold Decimal.add at sum
  split_ifs at sum
  · exact ((wide first).rounded precision mode).of_checked sum
  · exact ((wide second).rounded precision mode).of_checked sum
  · exact ((first.sumByMagnitude second precision).rounded precision mode).of_checked sum
  · exact ((second.sumByMagnitude first precision).rounded precision mode).of_checked sum

theorem settle_eq (spans : Spans low high d) (room : high - low + 1 < Limits.integerBound) (precision : Nat)
    (mode : Rounding) : settle d precision mode = Failure.refusing (d.rounded precision mode).checked := by
  rw [settle, round_eq spans room, ok_bind, checked_eq (spans.rounded precision mode) (by omega)]

theorem add_eq (first : Spans low high a) (second : Spans low high b)
    (room : high - low + precision + 7 < Limits.integerBound) :
    add a b precision mode = Failure.refusing (a.add b precision mode) := by
  have down := first.down
  have up := first.up
  unfold add Decimal.add
  by_cases none : b.isZero = true
  · rw [if_pos none, if_pos none]
    exact settle_eq first (by omega) precision mode
  rw [if_neg none, if_neg none]
  by_cases zero : a.isZero = true
  · rw [if_pos zero, if_pos zero]
    exact settle_eq second (by omega) precision mode
  rw [if_neg zero, if_neg zero, adjusted_eq second (by omega), adjusted_eq first (by omega), ok_bind, ok_bind]
  by_cases order : b.adjusted ≤ a.adjusted
  · simp only [if_pos order]
    rw [sumByMagnitude_eq first second (by omega), ok_bind]
    exact settle_eq (first.sumByMagnitude second precision) (by omega) precision mode
  · simp only [if_neg order]
    rw [sumByMagnitude_eq second first (by omega), ok_bind]
    exact settle_eq (second.sumByMagnitude first precision) (by omega) precision mode

/-- The quotient has no more digits than the dividend that is scaled for it. -/
private theorem natAbs_tdiv_lt (a b : Decimal) (shift : Nat) :
    ((a.mantissa * Int.pow 10 shift).tdiv b.mantissa).natAbs < 10 ^ (a.digits + shift) :=
  (Int.natAbs_tdiv_le_natAbs ..).trans_lt (natAbs_mul_pow_lt a shift)

theorem Spans.guardedQuotient (first : Spans 0 high a) (second : Spans 0 high b) (precision : Nat) :
    Spans (-2 * high - precision - 4) (high + 1) (a.guardedQuotient b precision) := by
  have bound := natAbs_tdiv_lt a b (max precision 1 + 2 + b.digits - a.digits)
  have digit : 0 < a.digits := Digits.count_pos _
  obtain ⟨down, up, last, first⟩ := first
  obtain ⟨_, _, last', first'⟩ := second
  unfold Decimal.guardedQuotient
  dsimp only
  split
  · have count := Digits.count_le_of_lt (by omega) bound
    apply spans_normal <;> omega
  · have longer : ∀ tail : Int, tail.natAbs = 1 →
        (((a.mantissa * Int.pow 10 (max precision 1 + 2 + b.digits - a.digits)).tdiv b.mantissa) * 10 + tail).natAbs <
          10 ^ (a.digits + (max precision 1 + 2 + b.digits - a.digits) + 1) := by
      intro tail unit
      rw [pow_succ]
      omega
    have unit : (if a.isNegative == b.isNegative then 1 else -1 : Int).natAbs = 1 := by
      split <;> rfl
    have count := Digits.count_le_of_lt (Nat.succ_pos _) (longer _ unit)
    apply spans_normal <;> omega

private theorem guardedQuotient_eq (first : Spans 0 high a) (second : Spans 0 high b)
    (room : 3 * high + precision + 5 < Limits.integerBound) :
    guardedQuotient a b precision = (.ok (a.guardedQuotient b precision) : Except (Failure ε) Decimal) := by
  have spans := first.guardedQuotient second precision
  have digit : 0 < a.digits := Digits.count_pos _
  obtain ⟨down, up, last, first⟩ := first
  obtain ⟨_, _, last', first'⟩ := second
  unfold Decimal.guardedQuotient at spans ⊢
  dsimp only at spans ⊢
  simp (disch := omega) only [guardedQuotient, integer_of_bounds, ok_bind]
  split_ifs at spans ⊢
  all_goals exact normal_eq spans (by omega) (by omega) (by omega)

theorem Spans.div (first : Spans 0 high a) (second : Spans 0 high b) (quotient : a.div b precision mode = .ok d) :
    Spans (-2 * high - precision - 4) (high + 1 + 1) d := by
  have wide := (first.guardedQuotient second precision).rounded precision mode
  unfold Decimal.div at quotient
  split_ifs at quotient
  · obtain rfl := Except.ok.inj quotient
    exact spans_zero wide.down wide.up
  · exact wide.of_checked quotient

theorem div_eq (first : Spans 0 high a) (second : Spans 0 high b)
    (room : 3 * high + precision + 6 < Limits.integerBound) :
    div a b precision mode = Failure.refusing (a.div b precision mode) := by
  have bounds := first.adjusted_bounds
  have bounds' := second.adjusted_bounds
  have wide := first.guardedQuotient second precision
  have up := first.up
  have distance : Holds (a.adjusted - b.adjusted) := by
    unfold Holds
    omega
  have magnitude : Holds (a.adjusted - b.adjusted).natAbs := by
    unfold Holds
    omega
  unfold div Decimal.div
  split_ifs with none zero far
  · rfl
  · rfl
  all_goals
    rw [adjusted_eq first (by omega), ok_bind, adjusted_eq second (by omega), ok_bind, integer_eq distance, ok_bind,
      integer_eq magnitude, ok_bind]
  · rw [if_pos (by omega)]
    rfl
  · rw [if_neg (by omega), guardedQuotient_eq first second (by omega), ok_bind]
    exact settle_eq wide (by omega) precision mode

end Dialogue.Machine
