import Dialogue.Lists.Copying
import Dialogue.Proofs.NumberText
import Dialogue.Proofs.ReadingTermination

/-! Where flattening and copying overflow. Both put texts together and compute nothing else on their way, and whatever
is not a number has a text. Readings come to numbers that are kept in variables already, that count something, or
that are π. -/

namespace Dialogue

namespace Storage

/-- The value that is stored, or was worked out and is kept. -/
def kept? : Storage → Option Scalar
  | .stored value => some value
  | .bound (.cell value _) => some value
  | .derived _ (.kept _ _ value) => some value
  | _ => none

variable {storage : Storage} {value kept : Scalar} {config : Config}

private theorem kept?_evaluated (keeps : (storage.evaluated value config).kept? = some kept) :
    storage.kept? = some kept ∨ kept = value := by
  rcases storage with _ | _ | ⟨formula, memo⟩
  · exact .inl keeps
  · exact .inl keeps
  · cases memo with
    | never => cases formula <;> cases keeps
    | empty | kept => cases formula <;> exact .inr (Option.some.inj keeps).symm

private theorem kept?_of_recalled {formula : Formula} {memo : Memo} (recalled : memo.recalled? config = some value) :
    (Storage.derived formula memo).kept? = some value := by
  unfold Memo.recalled? at recalled
  split at recalled
  next =>
    split at recalled
    · exact recalled
    · cases recalled
  next => cases recalled

end Storage

namespace Number

/-- A number that has a text, and a precision of 64 bits. -/
structure Sayable (number : Number) (config : Config) : Prop where
  text : ∃ text, (number.text config : Except (Failure Cause) String) = .ok text
  precision : (number.precision : Int) < Limits.integerBound

private theorem sayable_integer {count : Int} {config : Config} (short : config.precision < Limits.integerBound)
    (least : 0 ≤ count) (most : count < Limits.integerBound) : (integer count config).Sayable config where
  text := text_integer (by omega) (by simpa [Limits.integerBound] using most) config config
  precision := short

end Number

namespace World

variable {world after : World} {ref list : Ref} {config : Config} {number : Number}

/-- The numbers that readings can come to. -/
inductive Yields (world : World) (config : Config) : Number → Prop
  | kept {ref : Ref} {number : Number} (found : (world.storage? ref).bind Storage.kept? = some (.number number)) :
      world.Yields config number
  | length (list : Ref) : world.Yields config (.integer (world.length list) config)
  | precision {number : Number} (yields : world.Yields config number) :
      world.Yields config (.integer number.precision config)
  /-- The precision of texts and truth values. -/
  | active : world.Yields config (.integer config.precision config)
  | setPrecision : world.Yields config (.integer world.config.precision config)
  | setBase : world.Yields config (.integer world.config.base config)
  | calls {count : Int} (least : 0 ≤ count) (most : count < Limits.integerBound) :
      world.Yields config (.integer count config)
  | pi : world.Yields config (.rounded (.pi config.precision) config.precision config.rounding)

/-- A value that is a number is one that readings can come to. -/
def ComesTo (world : World) (config : Config) (value : Scalar) : Prop :=
  ∀ number, value = .number number → world.Yields config number

/-- Readings can come to a number that has no text. -/
def Wordless (world : World) (config : Config) : Prop :=
  ∃ number, world.Yields config number ∧ (number.text config : Except (Failure Cause) String) = .error .overflow

/-- Numbers that are kept have texts, and counts are integers of 64 bits. -/
structure Worded (world : World) (config : Config) : Prop where
  kept : ∀ {ref number}, (world.storage? ref).bind Storage.kept? = some (.number number) → number.Sayable config
  length : ∀ list, (world.length list : Int) < Limits.integerBound
  active : (config.precision : Int) < Limits.integerBound
  setPrecision : (world.config.precision : Int) < Limits.integerBound
  setBase : (world.config.base : Int) < Limits.integerBound
  pi : (Number.rounded (.pi config.precision) config.precision config.rounding).Sayable config

private theorem Worded.sayable (worded : world.Worded config) (yields : world.Yields config number) :
    number.Sayable config := by
  have counts {count : Nat} (most : (count : Int) < Limits.integerBound) : (Number.integer count config).Sayable config :=
    Number.sayable_integer worded.active (Int.natCast_nonneg count) most
  induction yields with
  | kept found => exact worded.kept found
  | length list => exact counts (worded.length list)
  | precision _ ih => exact counts ih.precision
  | active => exact counts worded.active
  | setPrecision => exact counts worded.setPrecision
  | setBase => exact counts worded.setBase
  | calls least most => exact Number.sayable_integer worded.active least most
  | pi => exact worded.pi

theorem Worded.not_wordless (worded : world.Worded config) : ¬world.Wordless config := by
  rintro ⟨number, yields, overflows⟩
  obtain ⟨text, shown⟩ := (worded.sayable yields).text
  rw [shown] at overflows
  cases overflows

/-- Readings can come to no more than before if no variable keeps anything else, and lists and settings are the same. -/
private theorem Yields.mono (yields : after.Yields config number)
    (kept : ∀ ref value, (after.storage? ref).bind Storage.kept? = some value → world.ComesTo config value)
    (slots : ∀ list, after.slots list = world.slots list) (settings : after.config = world.config) :
    world.Yields config number := by
  induction yields with
  | kept found => exact kept _ _ found _ rfl
  | length list =>
    rw [World.length, slots]
    exact .length list
  | precision _ ih => exact .precision ih
  | active => exact .active
  | setPrecision => exact settings ▸ .setPrecision
  | setBase => exact settings ▸ .setBase
  | calls least most => exact .calls least most
  | pi => exact .pi

private theorem ComesTo.of_kept {value : Scalar} (found : (world.storage? ref).bind Storage.kept? = some value) :
    world.ComesTo config value := by
  rintro number rfl
  exact .kept found

private theorem ComesTo.of_body {storage : Storage} {value : Scalar} (found : world.body? ref = some (.var storage))
    (kept : storage.kept? = some value) : world.ComesTo config value :=
  .of_kept (Option.bind_eq_some_iff.mpr ⟨storage, storage?_eq_some.mpr found, kept⟩)

private theorem Yields.of_setBusy {busy : Bool} (yields : (world.setBusy list busy).Yields config number) :
    world.Yields config number := by
  refine yields.mono (fun ref value found => ?_) (fun _ => slots_setBusy) rfl
  rw [World.setBusy, storage?_changeList] at found
  exact .of_kept found

private theorem Yields.of_evaluate {value : Scalar} (gives : world.ComesTo config value)
    (yields : (world.evaluate ref value config).Yields config number) : world.Yields config number := by
  have undisturbed : world.Undisturbed (world.evaluate ref value config) := .evaluate
  refine yields.mono (fun other kept found => ?_) (fun _ => undisturbed.slots) (by rw [undisturbed.rest])
  unfold evaluate at found
  split at found
  next storage stored =>
    rw [storage?_setStorage] at found
    split at found
    next here =>
      subst here
      rw [stored] at found
      obtain same | rfl := Storage.kept?_evaluated found
      · exact .of_kept (Option.bind_eq_some_iff.mpr ⟨storage, stored, same⟩)
      · exact gives
    next => exact .of_kept found
  next => exact .of_kept found

/-- Texts and truth values have texts. -/
private theorem ComesTo.wordless {value : Scalar} (gives : world.ComesTo config value)
    (overflows : value.asText config = .error .overflow) : world.Wordless config := by
  cases value with
  | number number => exact ⟨number, gives number rfl, overflows⟩
  | text | truth => cases overflows

end World

namespace Act

open World

variable {α : Type} {world : World} {ref list : Ref} {config : Config} {read : Ref → Act Scalar} {plan : Ref → Act Copy}

/-- Readings can come to no more afterwards. Overflows only if they can come to a number that has no text. -/
def voiced (config : Config) : Guarantee where
  keeps world after := ∀ number, after.Yields config number → world.Yields config number
  allows world stop := stop = .fault .overflow → world.Wordless config
  refl _ _ yields := yields
  trans first second number yields := first number (second number yields)
  earlier kept allowed overflows := (allowed overflows).imp fun number => And.imp_left (kept number)
  anomalies := nofun

theorem Meets.voiced_whileBusy {act : Act α}
    (meets : Meets (voiced config) act (world.setBusy list true) fun _ _ => True) :
    Meets (voiced config) (Act.whileBusy list act) world fun _ _ => True :=
  meets.whileBusy (fun kept number yields => (kept number yields.of_setBusy).of_setBusy)
    (fun allowed overflows => (allowed overflows).imp fun _ => And.imp_left Yields.of_setBusy) fun _ _ done => done

/-- A reading of an object comes to nothing but what it can. -/
abbrev Voiced (config : Config) (act : Act Scalar) (world : World) : Prop :=
  Meets (voiced config) act world fun value after => after.ComesTo config value

private theorem voiced_flattenWith (reads : ∀ ref world, Voiced config (read ref) world) :
    Meets (voiced config) (flattenWith read config list) world fun _ _ => True := by
  refine .look ?_
  split
  next => exact .pure trivial
  next =>
    refine .voiced_whileBusy (.look (.foldlM trivial fun slot _ text inner _ _ => ?_))
    apply Meets.element.bind
    rintro found inner - ⟨rfl, rfl⟩
    apply (reads slot.target inner).bind
    intro value after _ gives
    exact .compute_bind (fun overflows _ => gives.wordless overflows) fun _ _ => .pure trivial

private theorem voiced_readBinding {binding : Binding} (found : world.body? ref = some (.var (.bound binding)))
    (reads : ∀ ref world, Voiced config (read ref) world) : Voiced config (readBinding read config binding) world := by
  cases binding with
  | cell => exact .pure (.of_body found rfl)
  | length list =>
    apply Meets.demand.bind
    rintro _ _ - ⟨rfl, rfl, -⟩
    refine .look (.pure ?_)
    rintro _ ⟨⟩
    exact .length _
  | precision target =>
    apply Meets.demand.bind
    rintro _ _ - ⟨rfl, rfl, -⟩
    refine (reads _ _).bind fun value after _ gives => .pure ?_
    rintro _ ⟨⟩
    cases value with
    | number number => exact .precision (gives number rfl)
    | text | truth => exact .active
  | ownerName | beenSaid => exact Meets.demand.bind fun _ _ _ _ => .look (.pure nofun)
  | setting which =>
    refine .look ?_
    cases which with
    | precision =>
      refine .pure ?_
      rintro _ ⟨⟩
      exact .setPrecision
    | strictLists => exact .pure nofun
    | base =>
      refine .pure ?_
      rintro _ ⟨⟩
      exact .setBase

/-- What a formula comes to it can come to in any world. -/
private theorem voiced_readFormula {formula : Formula} (reads : ∀ ref world, Voiced config (read ref) world) :
    Meets (voiced config) (readFormula read config formula) world
      fun value _ => ∀ other : World, other.ComesTo config value := by
  cases formula with
  | fullName => exact Meets.demand.bind fun _ _ _ _ => .look (.pure nofun)
  | text => exact (voiced_flattenWith reads).bind fun _ _ _ _ => .pure nofun
  | calls count =>
    refine .pure fun _ => ?_
    rintro _ ⟨⟩
    have positive : 0 < Limits.integerBound := by decide
    exact .calls (by omega) (by omega)
  | pi =>
    refine .pure fun _ => ?_
    rintro _ ⟨⟩
    exact .pi

private theorem voiced_valueWith (reads : ∀ ref world, Voiced config (read ref) world) :
    Voiced config (valueWith read config ref) world := by
  refine .look ?_
  split
  next found => exact .pure (.of_body found rfl)
  next found => exact voiced_readBinding found reads
  next found =>
    split
    next recalled => exact .pure (.of_body found (Storage.kept?_of_recalled recalled))
    next =>
      refine (voiced_readFormula reads).bind fun value after _ gives => ?_
      exact .update_bind (fun _ => Yields.of_evaluate (gives after)) (.pure (gives _))
  next => exact (voiced_flattenWith reads).bind fun _ _ _ _ => .pure nofun
  next => exact .look (.pure nofun)

private theorem voiced_valueWithin (fuel : Nat) : Voiced config (valueWithin fuel config ref) world := by
  induction fuel generalizing ref world with
  | zero => exact .throw nofun
  | succ fuel ih => exact voiced_valueWith fun _ _ => ih

theorem voiced_value : Voiced config (value config ref) world := .look (voiced_valueWithin _)

theorem voiced_flatten : Meets (voiced config) (flatten config list) world fun _ _ => True :=
  voiced_flattenWith fun _ _ => voiced_value

theorem voiced_textOf : Meets (voiced config) (textOf config ref) world fun _ _ => True :=
  voiced_value.bind fun _ _ _ gives => .compute (fun overflows _ => gives.wordless overflows) fun _ _ => trivial

/-! Plans. -/

private theorem voiced_planSlots (plans : ∀ ref world, Meets (voiced config) (plan ref) world fun _ _ => True) :
    Meets (voiced config) (planSlots plan list) world fun _ _ => True := by
  refine .look (.look ?_)
  split
  next => exact .pure trivial
  next =>
    have each (slot : Slot) (inner : World) : Meets (voiced config) (planSlot plan slot) inner fun _ _ => True := by
      rcases slot with element | ⟨target, name⟩
      · exact plans element inner
      · refine .look ?_
        split
        next => exact plans target inner
        next => exact .pure trivial
    have planned : Meets (voiced config) ((world.slots list).mapM (planSlot plan)) (world.setBusy list true) fun _ _ => True :=
      (Meets.mapM (fun _ => True) fun slot _ inner _ => each slot inner).forget
    exact .voiced_whileBusy planned

private theorem voiced_planWithin (fuel : Nat) :
    Meets (voiced config) (planWithin fuel config ref) world fun _ _ => True := by
  induction fuel generalizing world ref with
  | zero => exact .throw nofun
  | succ fuel ih =>
    refine .look ?_
    split
    next => exact voiced_value.bind fun _ _ _ _ => .pure trivial
    next =>
      refine .look ?_
      split
      next => exact Meets.aliasOf.bind fun _ _ _ _ => .pure trivial
      next => exact (voiced_planSlots fun _ _ => ih).bind fun _ _ _ _ => .pure trivial
    next => exact Meets.reference.bind fun _ _ _ _ => .pure trivial

theorem voiced_plan : Meets (voiced config) (Act.plan config ref) world fun _ _ => True :=
  .look (voiced_planWithin world.copyingFuel)

theorem voiced_planSlots_plan : Meets (voiced config) (planSlots (Act.plan config) list) world fun _ _ => True :=
  voiced_planSlots fun _ _ => voiced_plan

end Act

end Dialogue
