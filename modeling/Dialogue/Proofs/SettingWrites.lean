import Dialogue.Proofs.ExactRemainder
import Dialogue.Proofs.LeastExponents
import Dialogue.Proofs.ListGrowth

/-! Settings that scripts write. A precision or a base is the integer toward zero of whatever scalar is written, which
is clamped to 64 bits before its range is checked. An integer that is out of range stays so, so nothing but admitted
integers is ever stored, and a write that fails changes nothing. -/

namespace Dialogue

namespace Limits

/-- The integer of 64 bits that is nearest to an integer. -/
def clamped (n : Int) : Int := max (-integerBound) (min n (integerBound - 1))

theorem clamped_cases (n : Int) : clamped n = n ∧ -integerBound ≤ n ∧ n < integerBound ∨
    clamped n = integerBound - 1 ∧ integerBound ≤ n ∨ clamped n = -integerBound ∧ n < -integerBound := by
  unfold clamped integerBound
  omega

end Limits

namespace Decimal

open Rounding

variable {d : Decimal}

private theorem inward_of_small {x : ℚ} (small : |x| < 1) : inward x = 0 := by
  obtain ⟨least, most⟩ := abs_lt.mp small
  unfold inward
  split
  next above => exact Int.floor_eq_iff.mpr ⟨by simpa using above, by simpa using most⟩
  next below =>
    have negative := (not_le.mp below).le
    exact Int.ceil_eq_iff.mpr ⟨by simpa using least, by simpa using negative⟩

theorem le_inward {x : ℚ} {n : ℤ} (above : 0 ≤ n) (least : (n : ℚ) ≤ x) : n ≤ inward x := by
  have positive : 0 ≤ x := le_trans (by exact_mod_cast above) least
  rw [inward, if_pos positive]
  exact Int.le_floor.mpr least

private theorem inward_neg (x : ℚ) : inward (-x) = -inward x := whole_neg .towardZero x

private theorem inward_div (m : ℤ) {n : ℤ} (divisor : n ≠ 0) : inward (m / n) = m.tdiv n := by
  have remains := remains_tmod m divisor one_pos
  simpa using remains.whole_eq.symm

/-- What is cut off behind the point is what the division toward zero leaves. -/
theorem inward_toRat : inward d.toRat =
    if 0 ≤ d.exponent then d.mantissa * Int.pow 10 d.exponent.toNat
    else d.mantissa.tdiv (Int.pow 10 (-d.exponent).toNat) := by
  split
  next above =>
    obtain ⟨zeros, same⟩ := Int.eq_ofNat_of_zero_le above
    have whole : d.toRat = ((d.mantissa * 10 ^ zeros : ℤ) : ℚ) := by
      rw [toRat, same, zpow_natCast]
      push_cast
      rfl
    rw [whole, same, inward, Int.floor_intCast, Int.ceil_intCast, ite_self]
    rfl
  next below =>
    obtain ⟨places, same⟩ := Int.eq_ofNat_of_zero_le (show 0 ≤ -d.exponent by omega)
    have cut : d.toRat = (d.mantissa : ℚ) / ((10 ^ places : ℤ) : ℚ) := by
      rw [toRat, show d.exponent = -(places : ℤ) by omega, zpow_neg, zpow_natCast]
      push_cast
      rfl
    rw [cut, inward_div _ (by positivity), same]
    rfl

/-- A decimal is taken for an integer of 64 bits just if its integer part is one. -/
private theorem toInt64?_eq : d.toInt64? =
    if -Limits.integerBound ≤ inward d.toRat ∧ inward d.toRat < Limits.integerBound then some (inward d.toRat)
    else none := by
  unfold toInt64?
  split
  next small =>
    have none : inward d.toRat = 0 := by
      rcases small with zero | below
      · rw [toRat_eq_zero_iff.mpr zero]
        simp [inward]
      · cases zero : d.isZero with
        | true =>
          rw [toRat_eq_zero_iff.mpr zero]
          simp [inward]
        | false =>
          refine inward_of_small ((toRat_bounds zero).2.trans_le ?_)
          exact zpow_le_one_of_nonpos₀ (by norm_num) (by omega)
    rw [none, if_pos (by decide)]
  next large =>
    obtain ⟨nonzero, -⟩ := not_or.mp large
    split
    next long =>
      have least : ((10 ^ 19 : ℤ) : ℚ) ≤ |d.toRat| := by
        refine le_trans ?_ (toRat_bounds (Bool.not_eq_true _ ▸ nonzero)).1
        have power : ((10 ^ 19 : ℤ) : ℚ) = 10 ^ (19 : ℤ) := by norm_num
        rw [power]
        exact zpow_le_zpow_right₀ (by norm_num) (by omega)
      rw [if_neg]
      rintro ⟨low, high⟩
      unfold Limits.integerBound at low high
      rcases abs_cases d.toRat with ⟨same, -⟩ | ⟨same, -⟩
      · have above := le_inward (by positivity) (same ▸ least)
        omega
      · have above := le_inward (by positivity) (same ▸ least)
        rw [inward_neg] at above
        omega
    next => simp only [inward_toRat]

/-- Beyond 64 bits the sign decides. -/
private theorem clamped_eq : d.toInt64?.getD (if d.isNegative then -Limits.integerBound else Limits.integerBound - 1) =
    Limits.clamped (inward d.toRat) := by
  rw [toInt64?_eq]
  have bound : 0 < Limits.integerBound := by decide
  have cases := Limits.clamped_cases (inward d.toRat)
  split
  next inside =>
    rw [Option.getD_some]
    omega
  next outside =>
    have unit : (0 : ℚ) < 10 ^ d.exponent := by positivity
    rw [Option.getD_none]
    cases sign : d.isNegative with
    | true =>
      have below : d.toRat < 0 := mul_neg_of_neg_of_pos (by exact_mod_cast of_decide_eq_true sign) unit
      have negative : inward d.toRat ≤ 0 := by
        rw [inward, if_neg below.not_ge]
        exact Int.ceil_le.mpr (by simpa using below.le)
      rw [if_pos rfl]
      omega
    | false =>
      have above : 0 ≤ d.toRat :=
        mul_nonneg (by exact_mod_cast not_lt.mp (of_decide_eq_false sign)) unit.le
      have positive : 0 ≤ inward d.toRat := le_inward le_rfl (by simpa using above)
      rw [if_neg Bool.false_ne_true]
      omega

end Decimal

/-- The integer part of a number. -/
def Number.whole (number : Number) : Int := Rounding.inward number.value.toRat

namespace Config

/-- Settings as scripts may leave them. -/
structure Valid (config : Config) : Prop where
  precision : minPrecision ≤ config.precision ∧ config.precision ≤ maxPrecision
  base : minBase ≤ config.base ∧ config.base ≤ maxBase

end Config

/-- A scalar that is written, under some config, to a variable that is bound to a setting. -/
structure SettingWrite where
  target : Ref
  setting : Setting
  value : Scalar
  active : Config

namespace Scalar

variable {value : Scalar} {active : Config} {cause : Cause}

private theorem asInteger_eq :
    value.asInteger active = (value.asNumber active).map fun number => Limits.clamped number.whole := by
  unfold asInteger Number.toInt
  cases value.asNumber active with
  | error failure => rfl
  | ok number => exact congrArg Except.ok Decimal.clamped_eq

/-- Only texts may be no numbers. -/
theorem unread (failed : value.asNumber active = .error (.refused cause)) :
    ∃ text, value = .text text ∧ cause = .noConversion text Number.kindName := by
  cases value with
  | number => cases failed
  | truth => cases failed
  | text text =>
    refine ⟨text, rfl, ?_⟩
    unfold asNumber Number.parse at failed
    dsimp only at failed
    split at failed
    · cases failed
    · split at failed
      · cases failed
      next failure _ =>
        cases failure with
        | refused => exact (Failure.refused.inj (Except.error.inj failed)).symm
        | overflow => cases failed

end Scalar

namespace World

open Act

variable {world now : World} {ref : Ref} {value : Scalar} {active : Config} {write : SettingWrite}
  {writes : List SettingWrite}

def writeSetting (world : World) (write : SettingWrite) : World :=
  leaves (assign write.target write.value write.active) world

/-- One write after the other, whether or not they fail. -/
def writeSettings (world : World) (writes : List SettingWrite) : World := writes.foldl writeSetting world

/-- What comes of writing a scalar to a setting that admits the integers of a range. -/
structure TakesInteger (now : World) (value : Scalar) (active : Config) (least most : Nat) (refusal : Int → Cause)
    (setting : Nat → Config) (result : EStateM.Result Stop World Unit) : Prop where
  admitted : ∀ number, value.asNumber active = .ok number → ∀ stored : Nat, number.whole = stored →
    least ≤ stored → stored ≤ most → result = .ok () { now with config := setting stored }
  refused : ∀ number, value.asNumber active = .ok number → ¬(least ≤ number.whole ∧ number.whole ≤ most) →
    result = .error (.ofCause (refusal (Limits.clamped number.whole))) now
  unread : ∀ cause, value.asNumber active = .error (.refused cause) →
    result = .error (.ofCause cause) now ∧ ∃ text, value = .text text ∧ cause = .noConversion text Number.kindName
  overflows : value.asNumber active = .error .overflow →
    result = .error (.fault .overflow) now ∧ value.MarksLeast active

/-- What comes of writing a scalar to the setting that is a truth value. -/
structure TakesTruth (now : World) (value : Scalar) (active : Config) (result : EStateM.Result Stop World Unit) : Prop where
  stored : ∀ strictLists, value.asTruth active = .ok strictLists →
    result = .ok () { now with config := { now.config with strictLists } }
  overflows : ∀ failure, value.asTruth active = .error failure →
    result = .error (.fault .overflow) now ∧ value.MarksLeast active

/-- What comes of writing a scalar to a setting. -/
def Takes (now : World) (value : Scalar) (active : Config) (result : EStateM.Result Stop World Unit) : Setting → Prop
  | .precision => now.TakesInteger value active Config.minPrecision Config.maxPrecision .badPrecision
      (fun precision => { now.config with precision }) result
  | .base => now.TakesInteger value active Config.minBase Config.maxBase .badBase
      (fun base => { now.config with base }) result
  | .strictLists => now.TakesTruth value active result

/-- A check of a range, made on the clamped integer, admits just the integers of the range. -/
private theorem takesInteger {least most : Nat} {refusal : Int → Cause} {setting : Nat → Config}
    {change : Int → Except Cause Config} (small : (most : Int) < Limits.integerBound - 1)
    (checks : ∀ requested, change requested =
      if least ≤ requested ∧ requested ≤ most then .ok (setting requested.toNat) else .error (refusal requested)) :
    now.TakesInteger value active least most refusal setting
      ((do setConfig (← lift (change (← compute (value.asInteger active)))) : Act Unit) now) := by
  rw [Scalar.asInteger_eq]
  have writes (number : Number) (read : value.asNumber active = .ok number) :
      (do setConfig (← lift (change (← compute ((value.asNumber active).map fun number => Limits.clamped number.whole)))) :
        Act Unit) now = (do setConfig (← lift (change (Limits.clamped number.whole))) : Act Unit) now := by
    rw [read]
    rfl
  constructor
  · intro number read stored same above below
    have exact : Limits.clamped number.whole = stored := by
      have cases := Limits.clamped_cases number.whole
      omega
    rw [writes number read, exact, checks, if_pos (by omega), Int.toNat_natCast]
    rfl
  · intro number read outside
    have still : ¬(least ≤ Limits.clamped number.whole ∧ Limits.clamped number.whole ≤ most) := by
      have cases := Limits.clamped_cases number.whole
      omega
    rw [writes number read, checks, if_neg still]
    rfl
  · intro cause failed
    rw [failed]
    exact ⟨rfl, Scalar.unread failed⟩
  · intro failed
    rw [failed]
    exact ⟨rfl, Scalar.asNumber_overflow_iff.mp failed⟩

private theorem takesTruth : now.TakesTruth value active (Act.writeSetting .strictLists value active now) := by
  unfold Act.writeSetting
  rw [see_bind]
  dsimp only
  constructor
  · intro strictLists read
    rw [read]
    rfl
  · intro failure failed
    obtain rfl := Scalar.asTruth_eq_error failed
    rw [failed]
    exact ⟨rfl, Scalar.asTruth_overflow_iff.mp failed⟩

private theorem takes_assign (changeable : now.isConstant ref = false) {setting : Setting}
    (bound : now.storage? ref = some (.bound (.setting setting))) :
    now.Takes value active (assign ref value active now) setting := by
  have writes : assign ref value active now = Act.writeSetting setting value active now := by
    unfold assign
    rw [bind_of_ok (requireChangeable_of_changeable changeable), see_bind, bound]
    rfl
  rw [writes]
  cases setting with
  | strictLists => exact takesTruth
  | precision =>
    refine takesInteger (by decide) fun requested => ?_
    unfold Config.withPrecision Config.checkPrecision
    split <;> rfl
  | base =>
    refine takesInteger (by decide) fun requested => ?_
    unfold Config.withBase Config.checkBase
    split <;> rfl

private theorem assign_constant (constant : now.isConstant ref = true) :
    assign ref value active now = .error (.ofCause (.constantModified (now.fullName ref))) now := by
  unfold assign requireChangeable
  rw [bind_of_error (by rw [see_bind, if_pos constant]; rfl)]

namespace TakesInteger

variable {least most : Nat} {refusal : Int → Cause} {setting : Nat → Config} {result : EStateM.Result Stop World Unit}

/-- Either an admitted integer is stored, or nothing happens. -/
theorem cases (takes : now.TakesInteger value active least most refusal setting result) :
    (∃ stored, least ≤ stored ∧ stored ≤ most ∧ result = .ok () { now with config := setting stored }) ∨
      ∃ stop, result = .error stop now := by
  cases read : value.asNumber active with
  | error failure =>
    cases failure with
    | refused cause => exact .inr ⟨_, (takes.unread cause read).1⟩
    | overflow => exact .inr ⟨_, (takes.overflows read).1⟩
  | ok number =>
    by_cases inside : least ≤ number.whole ∧ number.whole ≤ most
    · obtain ⟨stored, same⟩ := Int.eq_ofNat_of_zero_le (show 0 ≤ number.whole by omega)
      exact .inl ⟨stored, by omega, by omega, takes.admitted number read stored same (by omega) (by omega)⟩
    · exact .inr ⟨_, takes.refused number read inside⟩

end TakesInteger

theorem TakesTruth.cases {result : EStateM.Result Stop World Unit} (takes : now.TakesTruth value active result) :
    (∃ strictLists, result = .ok () { now with config := { now.config with strictLists } }) ∨
      ∃ stop, result = .error stop now := by
  cases read : value.asTruth active with
  | error failure => exact .inr ⟨_, (takes.overflows failure read).1⟩
  | ok strictLists => exact .inl ⟨strictLists, takes.stored strictLists read⟩

/-- A write changes nothing but the settings, and keeps them valid. -/
private theorem writeSetting_eq (bound : world.storage? write.target = some (.bound (.setting write.setting))) :
    ∃ config, world.writeSetting write = { world with config } ∧ (world.config.Valid → config.Valid) := by
  have kept {stop : Stop} (stopped : assign write.target write.value write.active world = .error stop world) :
      ∃ config, world.writeSetting write = { world with config } ∧ (world.config.Valid → config.Valid) :=
    ⟨world.config, by rw [World.writeSetting, leaves, stopped], id⟩
  have stored {config : Config} (valid : world.config.Valid → config.Valid)
      (ran : assign write.target write.value write.active world = .ok () { world with config }) :
      ∃ config, world.writeSetting write = { world with config } ∧ (world.config.Valid → config.Valid) :=
    ⟨config, by rw [World.writeSetting, leaves, ran], valid⟩
  cases constant : world.isConstant write.target with
  | true => exact kept (assign_constant constant)
  | false =>
    have takes : world.Takes write.value write.active (assign write.target write.value write.active world) write.setting :=
      takes_assign constant bound
    revert takes
    cases write.setting with
    | strictLists =>
      intro takes
      rcases takes.cases with ⟨strictLists, ran⟩ | ⟨stop, stopped⟩
      · refine stored ?_ ran
        exact fun valid => ⟨valid.precision, valid.base⟩
      · exact kept stopped
    | precision =>
      intro takes
      rcases takes.cases with ⟨precision, above, below, ran⟩ | ⟨stop, stopped⟩
      · refine stored ?_ ran
        exact fun valid => ⟨⟨above, below⟩, valid.base⟩
      · exact kept stopped
    | base =>
      intro takes
      rcases takes.cases with ⟨base, above, below, ran⟩ | ⟨stop, stopped⟩
      · refine stored ?_ ran
        exact fun valid => ⟨valid.precision, ⟨above, below⟩⟩
      · exact kept stopped

private theorem writeSettings_eq
    (bound : ∀ write ∈ writes, world.storage? write.target = some (.bound (.setting write.setting))) :
    ∃ config, world.writeSettings writes = { world with config } ∧ (world.config.Valid → config.Valid) := by
  induction writes generalizing world with
  | nil => exact ⟨world.config, rfl, id⟩
  | cons write rest ih =>
    obtain ⟨here, boundRest⟩ := List.forall_mem_cons.mp bound
    obtain ⟨config, began, valid⟩ := writeSetting_eq here
    -- The variables are bound to what they were bound to, since only the settings differ.
    obtain ⟨last, ended, still⟩ := @ih { world with config } boundRest
    refine ⟨last, ?_, still ∘ valid⟩
    change (world.writeSetting write).writeSettings rest = _
    rw [began]
    exact ended

/-- Valid settings stay valid, whatever scalars are written to them, in whatever order and under whatever configs.
Every write on the way stores the integer part of the number that it is given, or fails and changes nothing. It fails
for an anomaly, unless its text marks the least exponent of 64 bits. -/
theorem settings_stay_valid (valid : world.config.Valid)
    (bound : ∀ write ∈ writes, world.storage? write.target = some (.bound (.setting write.setting))) :
    (world.writeSettings writes).config.Valid ∧
    ∀ done write rest, writes = done ++ write :: rest →
      (world.writeSettings done).config.Valid ∧
      (world.isConstant write.target = false →
        (world.writeSettings done).Takes write.value write.active
          (assign write.target write.value write.active (world.writeSettings done)) write.setting) ∧
      (world.isConstant write.target = true →
        assign write.target write.value write.active (world.writeSettings done) =
          .error (.ofCause (.constantModified ((world.writeSettings done).fullName write.target))) (world.writeSettings done)) := by
  constructor
  · obtain ⟨config, ended, kept⟩ := writeSettings_eq bound
    rw [ended]
    exact kept valid
  · rintro done write rest rfl
    obtain ⟨boundDone, boundRest⟩ := List.forall_mem_append.mp bound
    obtain ⟨config, ended, kept⟩ := writeSettings_eq boundDone
    have here : (world.writeSettings done).storage? write.target = some (.bound (.setting write.setting)) := by
      rw [ended]
      exact boundRest write List.mem_cons_self
    have marked : (world.writeSettings done).isConstant write.target = world.isConstant write.target := by
      rw [ended]
      rfl
    refine ⟨?_, fun changeable => takes_assign (marked.trans changeable) here, fun constant => assign_constant (marked.trans constant)⟩
    rw [ended]
    exact kept valid

/-- A variable for each setting. -/
def withSettings : World :=
  (World.runAll {} [
    { action := .create (.setting "precision" .precision), name := some "p" },
    { action := .create (.setting "base" .base), name := some "b" },
    { action := .create (.setting "strictLists" .strictLists), name := some "s" }]).2

/-- A precision with a fraction, and a base that takes more than 64 bits. -/
def farWrites : List SettingWrite :=
  [⟨0, .precision, .text "12.9", {}⟩, ⟨1, .base, .text "-1e30", {}⟩, ⟨2, .strictLists, .text "yes", {}⟩]

theorem settings_stay_valid_after_far_writes :
    withSettings.config.Valid ∧
    (∀ write ∈ farWrites, withSettings.storage? write.target = some (.bound (.setting write.setting))) ∧
    (withSettings.writeSettings farWrites).config.Valid ∧
    assign 0 (.text "12.9") {} withSettings = .ok () { withSettings with config := { precision := 12 } } ∧
    assign 1 (.text "-1e30") {} { withSettings with config := { precision := 12 } } =
      .error (.ofCause (.badBase (-9223372036854775808))) { withSettings with config := { precision := 12 } } := by
  have valid : withSettings.config.Valid := by
    have same : withSettings.config = {} := by decide +kernel
    rw [same]
    exact ⟨by decide, by decide⟩
  have bound : ∀ write ∈ farWrites, withSettings.storage? write.target = some (.bound (.setting write.setting)) := by
    decide +kernel
  obtain ⟨still, each⟩ := settings_stay_valid valid bound
  have settings : withSettings.config = {} := by decide +kernel
  have first : assign 0 (.text "12.9") {} withSettings = .ok () { withSettings with config := { precision := 12 } } := by
    have takes := (each [] _ _ rfl).2.1 (by decide +kernel)
    have read : (Scalar.text "12.9").asNumber {} = .ok ⟨⟨129, -1⟩, 24⟩ := by decide +kernel
    have whole : (⟨⟨129, -1⟩, 24⟩ : Number).whole = (12 : Nat) := by
      rw [Number.whole, Decimal.inward_toRat]
      decide
    have stored := takes.admitted _ read 12 whole (by decide) (by decide)
    rwa [show (withSettings.writeSettings []).config = {} from settings] at stored
  have second : withSettings.writeSettings [⟨0, .precision, .text "12.9", {}⟩] =
      { withSettings with config := { precision := 12 } } := by
    change leaves _ _ = _
    rw [leaves, first]
  refine ⟨valid, bound, still, first, ?_⟩
  have takes := (each [_] _ _ rfl).2.1 (by decide +kernel)
  have read : (Scalar.text "-1e30").asNumber {} = .ok ⟨⟨-1, 30⟩, 24⟩ := by decide +kernel
  have whole : (⟨⟨-1, 30⟩, 24⟩ : Number).whole = -1000000000000000000000000000000 := by
    rw [Number.whole, Decimal.inward_toRat]
    decide
  have outside : ¬((Config.minBase : Int) ≤ (⟨⟨-1, 30⟩, 24⟩ : Number).whole ∧
      (⟨⟨-1, 30⟩, 24⟩ : Number).whole ≤ Config.maxBase) := by
    rw [whole]
    decide
  have refused := takes.refused _ read outside
  rw [whole, second] at refused
  exact refused

/-- A text with the least exponent of 64 bits is written to the precision, and no anomaly says that it is no number. -/
theorem write_lost_to_least_exponent :
    withSettings.config.Valid ∧ withSettings.storage? 0 = some (.bound (.setting .precision)) ∧
    withSettings.isConstant 0 = false ∧
    stop? (assign 0 (.text "1e-9223372036854775808") {}) withSettings = some (.fault .overflow) ∧
    ∀ anomaly, stop? (assign 0 (.text "1e-9223372036854775808") {}) withSettings ≠ some (.anomaly anomaly) := by
  have stopped : stop? (assign 0 (.text "1e-9223372036854775808") {}) withSettings = some (.fault .overflow) := by
    decide +kernel
  have settings : withSettings.config = {} := by decide +kernel
  refine ⟨?_, by decide +kernel, by decide +kernel, stopped, fun anomaly never => ?_⟩
  · rw [settings]
    exact ⟨by decide, by decide⟩
  · cases stopped.symm.trans never

end World

end Dialogue
