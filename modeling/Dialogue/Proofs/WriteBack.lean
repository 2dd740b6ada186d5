import Dialogue.Proofs.ActGuarantees
import Dialogue.Proofs.ListGrowth

/-! Writing back what bound variables show. Lengths, precisions and bases are integers of the host that are
rounded to the active precision when they are read. One that has no more digits than that comes back as it
was, so writing it back leaves the world as it is. -/

namespace Dialogue

namespace Decimal

private theorem toInt64?_ofInt (value : Int) :
    (ofInt value).toInt64? =
      if -Limits.integerBound ≤ value ∧ value < Limits.integerBound then some value else none := by
  by_cases zero : value = 0
  · simp [zero, ofInt, toInt64?, Limits.integerBound]
  · obtain ⟨places, shifted, parts⟩ := normal_parts zero 0
    have places_pos := Digits.count_pos value.natAbs
    have leading : (ofInt value).adjusted = (Digits.count value.natAbs - 1 : Int) := by
      rw [ofInt, adjusted_normal zero, zero_add]
    have nonzero : (ofInt value).isZero = false := by simp [ofInt, zero]
    unfold toInt64?
    rw [if_neg (by rw [nonzero, leading]; simp; omega)]
    split
    next long =>
      have many : 19 ≤ Digits.count value.natAbs - 1 := by omega
      have large := (Nat.pow_le_pow_right (by decide) many).trans (Digits.pow_le_of_pos (by omega : value.natAbs ≠ 0))
      rw [if_neg]
      unfold Limits.integerBound
      omega
    next =>
      have above : 0 ≤ (ofInt value).exponent := by rw [ofInt, shifted, zero_add]; exact Int.natCast_nonneg places
      have whole : (ofInt value).mantissa * Int.pow 10 (ofInt value).exponent.toNat = value := by
        rw [ofInt, shifted, zero_add, Int.toNat_natCast]
        exact parts.symm
      simp only [if_pos above, whole]

/-- Rounded integers are integers. -/
private theorem exponent_rounded_ofInt (value : Int) (precision : Nat) (mode : Rounding) :
    0 ≤ ((ofInt value).rounded precision mode).exponent := by
  have whole : 0 ≤ (ofInt value).exponent := by
    by_cases zero : value = 0
    · simp [zero, ofInt, normal, Decimal.zero]
    · exact exponent_le_normal zero 0
  by_cases short : (ofInt value).digits ≤ max precision 1
  · rwa [rounded_of_digits_le short]
  · have long := Nat.not_le.mp short
    rw [rounded_of_lt_digits long]
    refine le_trans ?_ (exponent_le_normal (quotient_ne_zero long) _)
    omega

/-- An integer that is read from a decimal without a fraction is the value of that decimal. -/
private theorem ofInt_of_toInt64? {d : Decimal} {value : Int} (written : d.Normal) (whole : 0 ≤ d.exponent)
    (read : d.toInt64? = some value) : ofInt value = d := by
  have least := Digits.count_pos d.mantissa.natAbs
  unfold toInt64? at read
  split at read
  next small =>
    obtain rfl := Option.some.inj read
    have zero : d.isZero = true := by
      by_contra nonzero
      have leading : d.adjusted = d.exponent + (d.digits - 1 : Int) := by simp [adjusted, nonzero]
      rw [digits] at leading
      exact small.elim nonzero (by omega)
    rcases written with ⟨mantissa, exponent⟩ | last
    · cases d
      simp_all [ofInt, normal, Decimal.zero]
    · rw [isZero, beq_iff_eq] at zero
      simp [zero] at last
  next =>
    split at read
    next => cases read
    next =>
      simp only [Option.ite_none_right_eq_some] at read
      rw [← Option.some.inj read.2, ofInt]
      refine (normal_mul_pow d.mantissa 0 d.exponent.toNat).trans ?_
      rw [zero_add, Int.toNat_of_nonneg whole]
      exact written.normal_eq

end Decimal

namespace Number

variable {config : Config} {count : Nat}

/-- An integer with few enough digits is not rounded. -/
private theorem integer_of_digits_le (fits : (Decimal.ofInt count).digits ≤ max config.precision 1) :
    integer count config = ⟨.ofInt count, config.precision⟩ := by
  rw [integer, rounded, Decimal.rounded_of_digits_le fits]

private theorem toInt_integer (fits : (Decimal.ofInt count).digits ≤ max config.precision 1) :
    (integer count config).toInt = min (count : Int) (Limits.integerBound - 1) := by
  have positive : (Decimal.ofInt count).isNegative = false := by
    by_cases zero : (count : Int) = 0
    · simp [zero, Decimal.ofInt, Decimal.normal, Decimal.zero, Decimal.isNegative]
    · obtain ⟨places, -, parts⟩ := Decimal.normal_parts zero 0
      have tens : (0 : Int) < 10 ^ places := by positivity
      rw [Decimal.isNegative, decide_eq_false_iff_not, not_lt]
      exact nonneg_of_mul_nonneg_left (parts ▸ Int.natCast_nonneg count) tens
  rw [integer_of_digits_le fits, toInt, Decimal.toInt64?_ofInt]
  dsimp only
  split
  next small =>
    rw [Option.getD_some]
    omega
  next large =>
    rw [Option.getD_none, positive, if_neg Bool.false_ne_true]
    unfold Limits.integerBound at large ⊢
    omega

/-- An integer with too many digits is rounded to another one. -/
private theorem digits_le_of_toInt_integer (small : (count : Int) < Limits.integerBound - 1)
    (same : (integer count config).toInt = count) : (Decimal.ofInt count).digits ≤ max config.precision 1 := by
  have written := Decimal.normal_rounded (Decimal.normal_is_normal count 0) config.precision config.rounding
  unfold toInt at same
  cases read : (integer count config).value.toInt64? with
  | none =>
    rw [read, Option.getD_none] at same
    unfold Limits.integerBound at small same
    split at same <;> omega
  | some value =>
    rw [read, Option.getD_some] at same
    have value_eq := Decimal.ofInt_of_toInt64? written (Decimal.exponent_rounded_ofInt ..) read
    rw [← same, value_eq]
    exact Decimal.digits_rounded_le

end Number

namespace Config

variable {config changed : Config} {requested : Int} {precision base : Nat}

theorem checkPrecision_eq_ok (checked : checkPrecision requested = .ok precision) :
    0 ≤ requested ∧ requested ≤ maxPrecision ∧ precision = requested.toNat := by
  unfold checkPrecision at checked
  split at checked
  next inside => exact ⟨(Int.natCast_nonneg _).trans inside.1, inside.2, (Except.ok.inj checked).symm⟩
  next => cases checked

private theorem checkBase_eq_ok (checked : checkBase requested = .ok base) :
    0 ≤ requested ∧ requested ≤ maxBase ∧ base = requested.toNat := by
  unfold checkBase at checked
  split at checked
  next inside => exact ⟨(Int.natCast_nonneg _).trans inside.1, inside.2, (Except.ok.inj checked).symm⟩
  next => cases checked

private theorem withPrecision_eq_ok (accepted : config.withPrecision requested = .ok changed) :
    0 ≤ requested ∧ requested < Limits.integerBound - 1 ∧ changed = { config with precision := requested.toNat } := by
  obtain ⟨precision, checked, same⟩ := Results.bind_eq_ok.mp accepted
  obtain ⟨positive, small, rfl⟩ := checkPrecision_eq_ok checked
  refine ⟨positive, ?_, (Except.ok.inj same).symm⟩
  unfold maxPrecision at small
  unfold Limits.integerBound
  omega

private theorem withBase_eq_ok (accepted : config.withBase requested = .ok changed) :
    0 ≤ requested ∧ requested < Limits.integerBound - 1 ∧ changed = { config with base := requested.toNat } := by
  obtain ⟨base, checked, same⟩ := Results.bind_eq_ok.mp accepted
  obtain ⟨positive, small, rfl⟩ := checkBase_eq_ok checked
  refine ⟨positive, ?_, (Except.ok.inj same).symm⟩
  unfold maxBase at small
  unfold Limits.integerBound
  omega

end Config

namespace World

variable {world : World} {ref list : Ref}

private theorem setStorage_eq_self {storage : Storage} (found : world.storage? ref = some storage) :
    world.setStorage ref storage = world := by
  apply change_eq_self
  rintro ⟨name, body, constant, parent⟩ present
  rw [storage?, body?, present] at found
  cases body with
  | var kept => simp_all
  | _ => rfl

/-- The integers that variables show which are bound to a length, to the precision of a stored number, or
to the precision or the base of the settings. -/
inductive Shows (world : World) : Binding → Nat → Prop where
  | length {list : Ref} {name : String} (live : world.isLive list = true) :
    Shows world (.length list name) (world.length list)
  | precision {target : Ref} {name : String} {number : Number}
    (stored : world.storage? target = some (.stored (.number number))) :
    Shows world (.precision target name) number.precision
  | settingPrecision : Shows world (.setting .precision) world.config.precision
  | settingBase : Shows world (.setting .base) world.config.base

end World

namespace Act

open World

variable {world : World} {ref list target : Ref} {config : Config} {binding : Binding} {count : Nat} {size : Int}

/-- Acts that leave the world as it is, whatever they stop for. -/
def unchanged : Guarantee where
  keeps world after := after = world
  allows _ _ := True
  refl _ := rfl
  trans first second := second.trans first
  earlier _ _ := trivial
  anomalies := trivial

private theorem meets_setConfig_self : Meets unchanged (setConfig world.config) world fun _ _ => True :=
  .update (rfl : ({ world with config := world.config } : World) = world) trivial

/-- Integers beyond 64 bits come back as the largest one, which is more than any list may hold. -/
private theorem meets_resize_self : Meets unchanged
    (resize list (min (world.length list : Int) (Limits.integerBound - 1)) config) world fun _ _ => True := by
  have whole (fits : min (world.length list : Int) (Limits.integerBound - 1) ≤ Limits.listLength) :
      (min (world.length list : Int) (Limits.integerBound - 1)).toNat = world.length list := by
    unfold Limits.listLength Limits.integerBound at *
    omega
  refine .resize (fun _ fits _ => ?_) fun _ fits _ shorter => absurd shorter (whole fits).not_lt
  rw [whole fits, Nat.sub_self]
  exact Meets.update changeSlots_append_nil trivial

private theorem meets_setPrecision_self {number : Number} (exact : number.Exact)
    (stored : world.storage? target = some (.stored (.number number))) :
    Meets unchanged (setPrecision target (min (number.precision : Int) (Limits.integerBound - 1)) config) world
      fun _ _ => True := by
  refine .lift_bind fun precision checked => ?_
  obtain ⟨-, small, rfl⟩ := Config.checkPrecision_eq_ok checked
  have whole : min (number.precision : Int) (Limits.integerBound - 1) = number.precision := by
    unfold Config.maxPrecision Limits.integerBound at *
    omega
  apply Meets.requireChangeable.bind
  rintro _ after - ⟨rfl, -⟩
  refine .look ?_
  rw [stored, whole, Int.toNat_natCast]
  dsimp only
  rw [exact.withPrecision_self]
  exact .update (setStorage_eq_self stored) trivial

/-- A setting that is written as it was stays as it is. -/
private theorem meets_writeSetting_self {which : Setting} (shows : world.Shows (.setting which) count)
    (fits : (Decimal.ofInt count).digits ≤ max config.precision 1) :
    Meets unchanged (writeSetting which (.number (.integer count config)) config) world fun _ _ => True := by
  have written : (Scalar.number (.integer count config)).asInteger config =
      .ok (min (count : Int) (Limits.integerBound - 1)) := congrArg Except.ok (Number.toInt_integer fits)
  refine .look ?_
  cases shows with
  | settingPrecision =>
    refine .compute_bind (fun _ => trivial) fun requested read => .lift_bind fun changed accepted => ?_
    obtain rfl := Except.ok.inj (written.symm.trans read)
    obtain ⟨-, small, rfl⟩ := Config.withPrecision_eq_ok accepted
    have whole : (min (world.config.precision : Int) (Limits.integerBound - 1)).toNat = world.config.precision := by
      omega
    rw [whole]
    exact meets_setConfig_self
  | settingBase =>
    refine .compute_bind (fun _ => trivial) fun requested read => .lift_bind fun changed accepted => ?_
    obtain rfl := Except.ok.inj (written.symm.trans read)
    obtain ⟨-, small, rfl⟩ := Config.withBase_eq_ok accepted
    have whole : (min (world.config.base : Int) (Limits.integerBound - 1)).toNat = world.config.base := by omega
    rw [whole]
    exact meets_setConfig_self

private theorem meets_writeBinding_self (grounded : world.Grounded) (shows : world.Shows binding count)
    (fits : (Decimal.ofInt count).digits ≤ max config.precision 1) :
    Meets unchanged (writeBinding ref binding (.number (.integer count config)) config) world fun _ _ => True := by
  have written : (Scalar.number (.integer count config)).asInteger config =
      .ok (min (count : Int) (Limits.integerBound - 1)) := congrArg Except.ok (Number.toInt_integer fits)
  cases binding with
  | setting which => exact meets_writeSetting_self shows fits
  | length list name =>
    cases shows
    apply Meets.demand.bind
    rintro found after - ⟨rfl, rfl, -⟩
    rw [written]
    exact meets_resize_self
  | precision target name =>
    cases shows with
    | precision stored =>
      apply Meets.demand.bind
      rintro found after - ⟨rfl, rfl, -⟩
      rw [written]
      exact meets_setPrecision_self ((grounded (content?_eq_some_var.mpr stored)).exact _ rfl _ rfl) stored
  | _ => cases shows

private theorem meets_assign_self (grounded : world.Grounded) (bound : world.storage? ref = some (.bound binding))
    (shows : world.Shows binding count) (fits : (Decimal.ofInt count).digits ≤ max config.precision 1) :
    Meets unchanged (assign ref (.number (.integer count config)) config) world fun _ _ => True := by
  apply Meets.requireChangeable.bind
  rintro _ after - ⟨rfl, -⟩
  refine .look ?_
  rw [bound]
  exact meets_writeBinding_self grounded shows fits

/-! An integer that has been rounded to another one is written as that other one. -/

/-- An integer that comes back as it was, although it was rounded, is too large to be written. -/
theorem large_of_toInt_eq (rounds : max config.precision 1 < (Decimal.ofInt count).digits)
    (same : (Number.integer count config).toInt = count) :
    Limits.integerBound - 1 ≤ (Number.integer count config).toInt := by
  by_contra small
  exact absurd (Number.digits_le_of_toInt_integer (same ▸ Int.not_le.mp small) same) (Nat.not_le.mpr rounds)

private theorem meets_resize_other (sound : world.Sound) (filled : 0 < world.length list)
    (other : size = world.length list → Limits.integerBound - 1 ≤ size) :
    Meets anything (resize list size config) world fun _ after => after ≠ world := by
  have isList : world.kindOf list = .list := by
    obtain ⟨slot, rest, found⟩ := List.exists_cons_of_length_pos filled
    exact kindOf_eq_list_of_mem_slots (found ▸ List.mem_cons_self)
  have resizes : Meets anything (resize list size config) world fun _ after =>
      after.length list ≠ world.length list := by
    unfold Limits.integerBound at other
    apply Meets.resize
    · intro _ fits longer
      unfold Limits.listLength at fits
      apply (meets_anything.with_safe sound (safe_zeros _)).bind
      rintro zeros middle - ⟨-, -, began, -, counted⟩
      have live := isLive_of_isList isList
      have stays := (began.evolves.before (lt_size_of_isLive live) (began.isLive live)).2.trans isList
      refine .update trivial ?_
      rw [length, slots_changeSlots, if_pos ⟨rfl, stays⟩, List.length_append, counted, began.evolves.slots]
      change world.length list + _ ≠ _
      omega
    · intro _ _ _ shorter
      apply (meets_anything.with_safe sound safe_truncate).weaken
      rintro _ last - ⟨-, -, -, short⟩
      exact (short.trans_lt shorter).ne
  exact resizes.weaken fun _ _ _ different same => different (congrArg (·.length list) same)

private theorem meets_setPrecision_other {number : Number} {requested : Int}
    (other : requested = number.precision → Limits.integerBound - 1 ≤ requested)
    (stored : world.storage? target = some (.stored (.number number))) :
    Meets anything (setPrecision target requested config) world fun _ after => after ≠ world := by
  refine .lift_bind fun precision checked => ?_
  obtain ⟨positive, small, rfl⟩ := Config.checkPrecision_eq_ok checked
  apply Meets.requireChangeable.bind
  rintro _ after - ⟨rfl, -⟩
  refine .look ?_
  rw [stored]
  refine .compute_bind (fun _ => trivial) fun changed made => .update trivial fun same => ?_
  have kept := (storage?_setStorage_self stored).symm.trans ((congrArg (storage? · target) same).trans stored)
  have number_eq := Scalar.number.inj (Storage.stored.inj (Option.some.inj kept))
  have precision_eq : requested.toNat = number.precision :=
    (Number.precision_of_new made).symm.trans (congrArg Number.precision number_eq)
  unfold Config.maxPrecision Limits.integerBound at *
  omega

private theorem meets_writeSetting_other {which : Setting} (shows : world.Shows (.setting which) count)
    (rounds : max config.precision 1 < (Decimal.ofInt count).digits) :
    Meets anything (writeSetting which (.number (.integer count config)) config) world fun _ after => after ≠ world := by
  have large := large_of_toInt_eq rounds
  refine .look ?_
  cases shows with
  | settingPrecision =>
    refine .compute_bind (fun _ => trivial) fun requested read => .lift_bind fun changed accepted => ?_
    refine .update trivial fun same => ?_
    obtain rfl := Except.ok.inj read
    obtain ⟨positive, small, rfl⟩ := Config.withPrecision_eq_ok accepted
    have kept : (Number.integer world.config.precision config).toInt.toNat = world.config.precision :=
      congrArg (·.config.precision) same
    omega
  | settingBase =>
    refine .compute_bind (fun _ => trivial) fun requested read => .lift_bind fun changed accepted => ?_
    refine .update trivial fun same => ?_
    obtain rfl := Except.ok.inj read
    obtain ⟨positive, small, rfl⟩ := Config.withBase_eq_ok accepted
    have kept : (Number.integer world.config.base config).toInt.toNat = world.config.base :=
      congrArg (·.config.base) same
    omega

private theorem meets_writeBinding_other (sound : world.Sound) (shows : world.Shows binding count)
    (rounds : max config.precision 1 < (Decimal.ofInt count).digits) :
    Meets anything (writeBinding ref binding (.number (.integer count config)) config) world fun _ after =>
      after ≠ world := by
  cases binding with
  | setting which => exact meets_writeSetting_other shows rounds
  | length list name =>
    cases shows
    apply Meets.demand.bind
    rintro found after - ⟨rfl, rfl, -⟩
    refine .compute_bind (fun _ => trivial) fun requested read => ?_
    obtain rfl := Except.ok.inj read
    refine meets_resize_other sound (Nat.pos_of_ne_zero fun empty => ?_) (large_of_toInt_eq rounds)
    rw [empty] at rounds
    exact absurd rounds (by simp [Decimal.ofInt, Decimal.normal, Decimal.zero, Decimal.digits, Digits.count])
  | precision target name =>
    cases shows with
    | precision stored =>
      apply Meets.demand.bind
      rintro found after - ⟨rfl, rfl, -⟩
      refine .compute_bind (fun _ => trivial) fun requested read => ?_
      obtain rfl := Except.ok.inj read
      exact meets_setPrecision_other (large_of_toInt_eq rounds) stored
  | _ => cases shows

private theorem meets_assign_other (sound : world.Sound) (bound : world.storage? ref = some (.bound binding))
    (shows : world.Shows binding count) (rounds : max config.precision 1 < (Decimal.ofInt count).digits) :
    Meets anything (assign ref (.number (.integer count config)) config) world fun _ after => after ≠ world := by
  apply Meets.requireChangeable.bind
  rintro _ after - ⟨rfl, -⟩
  refine .look ?_
  rw [bound]
  exact meets_writeBinding_other sound shows rounds

/-! Reading. -/

private theorem gives_valueWithin_succ {storage : Storage} {fuel : Nat} {post : Scalar → World → Prop}
    (found : world.storage? ref = some storage)
    (gives : match storage with
      | .stored value => post value world
      | .bound binding => Gives (readBinding (valueWithin fuel config) config binding) world post
      | .derived .. => False) :
    Gives (valueWithin (fuel + 1) config ref) world post := by
  unfold valueWithin valueWith
  refine .look ?_
  rw [storage?_eq_some.mp found]
  cases storage with
  | stored value => exact .pure gives
  | bound binding => exact gives
  | derived => exact gives.elim

private theorem gives_readBinding {read : Ref → Act Scalar} (shows : world.Shows binding count)
    (reads : ∀ target value, world.storage? target = some (.stored value) →
      Gives (read target) world fun shown after => shown = value ∧ after = world) :
    Gives (readBinding read config binding) world fun shown after =>
      shown = .number (.integer count config) ∧ after = world := by
  cases shows with
  | length live =>
    apply (gives_demand live).bind
    rintro _ _ ⟨rfl, rfl⟩
    exact .look (.pure ⟨rfl, rfl⟩)
  | precision stored =>
    have live := isLive_of_content? (content?_eq_some_var.mpr stored)
    apply (gives_demand live).bind
    rintro _ _ ⟨rfl, rfl⟩
    apply (reads _ _ stored).bind
    rintro _ _ ⟨rfl, rfl⟩
    exact .pure ⟨rfl, rfl⟩
  | settingPrecision => exact .look (.pure ⟨rfl, rfl⟩)
  | settingBase => exact .look (.pure ⟨rfl, rfl⟩)

/-- Reading a variable that shows an integer changes nothing. -/
private theorem value_of_shows (bound : world.storage? ref = some (.bound binding))
    (shows : world.Shows binding count) :
    value config ref world = .ok (.number (.integer count config)) world := by
  have some_fuel : ∃ fuel, world.readingFuel = fuel + 2 := by
    have inside := lt_size_of_isLive (isLive_of_content? (content?_eq_some_var.mpr bound))
    refine ⟨world.readingFuel - 2, ?_⟩
    unfold readingFuel
    have : 1 ≤ (world.heap.size + 1) * (world.heap.size + 1) := Nat.mul_pos (by omega) (by omega)
    omega
  obtain ⟨fuel, enough⟩ := some_fuel
  have gives : Gives (value config ref) world fun shown after =>
      shown = .number (.integer count config) ∧ after = world := by
    refine .look ?_
    rw [enough]
    refine gives_valueWithin_succ bound (gives_readBinding shows fun target value stored => ?_)
    exact gives_valueWithin_succ stored ⟨rfl, rfl⟩
  obtain ⟨_, _, ran, rfl, rfl⟩ := gives
  exact ran

end Act

namespace World

variable {world : World} {ref : Ref} {binding : Binding} {count : Nat}

/-- Reading a variable that shows an integer changes nothing. Writing back what was read changes nothing
either, unless the integer has more digits than the active precision: then it has been rounded, and a write
that is not refused leaves another world. -/
theorem read_then_write (reached : world.Reachable) (bound : world.storage? ref = some (.bound binding))
    (shows : world.Shows binding count) (config : Config) :
    Act.value config ref world = .ok (.number (.integer count config)) world ∧
    ((Decimal.ofInt count).digits ≤ max config.precision 1 →
      Act.leaves (Act.assign ref (.number (.integer count config)) config) world = world) ∧
    (max config.precision 1 < (Decimal.ofInt count).digits →
      ∀ after, Act.assign ref (.number (.integer count config)) config world = .ok () after → after ≠ world) := by
  refine ⟨Act.value_of_shows bound shows, fun fits => ?_, fun rounds after ran => ?_⟩
  · exact (Act.meets_assign_self reached.sound.grounded bound shows fits).keeps_leaves
  · exact ((Act.meets_assign_other reached.sound bound shows rounds).of_ok ran).2

/-- A list of twelve elements and a variable that is bound to its length. -/
def lengthOfTwelve : List Step :=
  [{ action := .create (.list ""), name := some "l" }, { action := .list (.resize 12), target := some "l" },
    { action := .list .length, target := some "l", name := some "n" }]

theorem read_then_write_twelve :
    Act.leaves (Act.assign 13 (.number (.integer 12 {})) {}) (runAll {} lengthOfTwelve).2 =
        (runAll {} lengthOfTwelve).2 ∧
      ∀ after, Act.assign 13 (.number (.integer 12 { precision := 1 })) { precision := 1 }
        (runAll {} lengthOfTwelve).2 = .ok () after → after ≠ (runAll {} lengthOfTwelve).2 := by
  have reached : (runAll {} lengthOfTwelve).2.Reachable := (Reachable.start {}).runAll lengthOfTwelve
  have bound : (runAll {} lengthOfTwelve).2.storage? 13 = some (.bound (.length 0 "")) := by decide +kernel
  have live : (runAll {} lengthOfTwelve).2.isLive 0 = true := by decide +kernel
  have count : (runAll {} lengthOfTwelve).2.length 0 = 12 := by decide +kernel
  have shows : (runAll {} lengthOfTwelve).2.Shows (.length 0 "") 12 := count ▸ .length live
  exact ⟨(read_then_write reached bound shows {}).2.1 (by decide +kernel),
    (read_then_write reached bound shows { precision := 1 }).2.2 (by decide +kernel)⟩

/-- With one digit, twelve is read as ten, and writing that back takes two elements away. -/
theorem length_lost_by_rounding :
    (runAll { config := { precision := 1 } } lengthOfTwelve).2.length 0 = 12 ∧
      (runAll { config := { precision := 1 } } (lengthOfTwelve ++
        [{ action := .value (.assignFrom (.handle "n")), target := some "n" }])).2.length 0 = 10 := by
  decide +kernel

end World

end Dialogue
