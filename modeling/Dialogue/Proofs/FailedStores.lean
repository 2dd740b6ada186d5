import Dialogue.Proofs.AssignmentBounds
import Dialogue.Proofs.ConstantLists
import Dialogue.Proofs.WriteBack

/-! Stores that fail. Whatever gives a list elements does all that can fail before it touches the list, so a store that
stops leaves the slots as they were. Only a replacement is different: the list grows to the index before the new element
is copied, and stays longer if the copy fails. -/

namespace Dialogue

namespace Mutation

/-- Whether a mutation gives a list elements or another length. -/
def stores : Mutation → Bool
  | .resize _ | .push _ | .pushItself _ | .append _ | .appendThemselves _ | .replace .. | .insert _ => true
  | _ => false

/-- The object that a mutation works with besides the list. -/
def argument? : Mutation → Option Ref
  | .push object | .pushItself object | .pushAlias object | .append object | .appendThemselves object
  | .replace _ object => some object
  | _ => none

/-- Whether a mutation replaces an element that the list has to grow for, and can grow for. -/
def Outgrows (world : World) (list : Ref) (config : Config) : Mutation → Prop
  | .replace index _ => config.strictLists = false ∧ world.isConstant list = false ∧ world.length list ≤ index ∧
      index < Limits.listLength
  | _ => False

end Mutation

namespace Act

open World

variable {α β : Type} {world : World} {list ref object other : Ref} {config : Config} {index size : Int} {slot : Slot}

/-- An act that stops leaves the slots of a list as they were. -/
def FailsCleanly (list : Ref) (act : Act α) (world : World) : Prop :=
  ∀ stop after, act world = .error stop after → after.slots list = world.slots list

namespace FailsCleanly

variable {act : Act α} {next : α → Act β} {mid : α → World → Prop}

/-- What does not stop cannot fail. -/
theorem of_gives {result : α → World → Prop} (gives : Gives act world result) : FailsCleanly list act world := by
  intro stop after stopped
  obtain ⟨value, last, ran, -⟩ := gives
  cases ran.symm.trans stopped

theorem of_meets {result : α → World → Prop} (meets : Meets (sparing list) act world result) :
    FailsCleanly list act world :=
  fun _ _ stopped => (meets.of_error stopped).1.2

theorem look {view : World → α} (rest : FailsCleanly list (next (view world)) world) :
    FailsCleanly list (see view >>= next) world := rest

/-- What an act that spares the list is followed by fails cleanly. -/
theorem bind (first : Meets (sparing list) act world mid)
    (rest : ∀ value after, (sparing list).keeps world after → mid value after → FailsCleanly list (next value) after) :
    FailsCleanly list (act >>= next) world := by
  intro stop last stopped
  cases ran : act world with
  | error early after =>
    obtain ⟨rfl, rfl⟩ := EStateM.Result.error.inj ((bind_of_error ran).symm.trans stopped)
    exact (first.of_error ran).1.2
  | ok value after =>
    obtain ⟨kept, done⟩ := first.of_ok ran
    exact (rest value after kept done stop last ((bind_of_ok ran).symm.trans stopped)).trans kept.2

/-- An act that fails cleanly is followed by what cannot fail. -/
theorem bind_gives (first : FailsCleanly list act world)
    (rest : ∀ value after, act world = .ok value after → Gives (next value) after fun _ _ => True) :
    FailsCleanly list (act >>= next) world := by
  intro stop last stopped
  cases ran : act world with
  | error early after =>
    obtain ⟨rfl, rfl⟩ := EStateM.Result.error.inj ((bind_of_error ran).symm.trans stopped)
    exact first _ _ ran
  | ok value after =>
    obtain ⟨answer, ended, went, -⟩ := rest value after ran
    cases ((bind_of_ok ran).trans went).symm.trans stopped

end FailsCleanly

/-! What does not stop. -/

theorem gives_extend {slots : List Slot} : Gives (extend list slots) world fun _ after =>
    after = world.changeSlots list (· ++ slots) :=
  .update rfl

private theorem gives_truncate {length : Nat} : Gives (truncate list length) world fun _ _ => True :=
  .look (Gives.bind (.update trivial) fun _ _ (_ : True) => .update trivial)

mutual
/-- What was planned can be made. -/
theorem gives_make : ∀ (copy : Copy) (world : World), Gives (make copy) world fun _ _ => True
  | .value _, _ => gives_addValue.bind fun _ _ _ => .pure trivial
  | .list items, world => (gives_makeAll items world).bind fun _ _ _ =>
    Gives.bind ⟨_, _, rfl, trivial⟩ fun _ _ (_ : True) => .pure trivial
  | .keep _, _ => .pure trivial

theorem gives_makeAll : ∀ (copies : List Copy) (world : World), Gives (makeAll copies) world fun _ _ => True
  | [], _ => .pure trivial
  | copy :: rest, world => (gives_make copy world).bind fun _ _ _ =>
    (gives_makeAll rest _).bind fun _ _ _ => .pure trivial
end

theorem gives_element (live : world.isLive slot.target = true) : Gives (element slot) world fun _ _ => True :=
  ⟨_, _, element_of_live live, trivial⟩

private theorem gives_replaceSlot {position : Nat} (inside : position < world.length list) :
    Gives (replaceSlot list position slot) world fun _ _ => True := by
  refine .look ?_
  rw [List.getElem?_eq_getElem inside]
  exact Gives.bind (.update trivial) fun _ _ (_ : True) => .update trivial

/-- What a copy refers to without holding it is the object itself. -/
private theorem links_copy : Meets anything (copy config object) world fun slot _ =>
    ∀ target name, slot = .link target name → target = object := by
  have planned (fuel : Nat) : Meets anything (planWithin fuel config object) world fun copy _ =>
      ∀ slot, copy = .keep slot → slot.target = object := by
    cases fuel with
    | zero => exact .throw trivial
    | succ fuel =>
      refine .look ?_
      split
      next => exact meets_anything.bind fun _ _ _ _ => .pure nofun
      next =>
        refine .look ?_
        split
        next => exact Meets.aliasOf.bind fun slot _ _ made => .pure (by rintro _ ⟨⟩; exact made.2)
        next => exact meets_anything.bind fun _ _ _ _ => .pure nofun
      next => exact Meets.reference.bind fun slot _ _ made => .pure (by rintro _ ⟨⟩; exact made.2)
  have plans : Meets anything (plan config object) world _ := .look (planned _)
  refine plans.bind fun copy after _ kept => ?_
  cases copy with
  | value => exact meets_anything.bind fun _ _ _ _ => .pure nofun
  | list => exact meets_anything.bind fun _ _ _ _ => meets_anything.bind fun _ _ _ _ => .pure nofun
  | keep slot => exact .pure fun target name same => by rw [← kept slot rfl, same]; rfl

/-! Stores. -/

private theorem failsCleanly_resize : FailsCleanly list (resize list size config) world := by
  unfold resize
  dsimp only
  split
  next => exact .of_meets (.raise_bind : Meets _ _ _ fun _ _ => True)
  next =>
    apply FailsCleanly.bind Meets.requireChangeable
    intro _ after _ _
    refine .look ?_
    split
    next => exact .of_gives (Gives.bind ⟨_, _, zeros_eq .., trivial⟩ fun _ _ (_ : True) => gives_extend.forget)
    next => exact .of_gives gives_truncate

private theorem failsCleanly_position : FailsCleanly list (position list index config) world := by
  by_cases short : index < world.length list ∨ config.strictLists = true
  · exact .of_meets (meets_position_of_short short)
  · obtain ⟨past, lenient⟩ := not_or.mp short
    have grows : FailsCleanly list (do
        resize list (min (index + 1) (Limits.integerBound - 1)) config
        return index.toNat : Act Nat) world :=
      failsCleanly_resize.bind_gives fun _ _ _ => .pure trivial
    unfold FailsCleanly at grows ⊢
    rwa [position_of_growth (Int.not_lt.mp past) lenient]

private theorem failsCleanly_copy (ordered : world.Ordered) : FailsCleanly list (copy config object) world := by
  have plans : Meets quiet (plan config object) world _ := meets_plan ordered closed_everything fun _ => trivial
  exact .bind plans.sparing fun planned after _ _ => .of_gives (gives_make planned after)

/-- What was copied lives on where it has been stored. -/
theorem isLive_of_copy {after last : World} (copied : copy config object world = .ok slot after)
    (live : last.isLive object = true) (stored : last.Alive [slot]) : last.isLive slot.target = true := by
  rcases slot with element | ⟨target, name⟩
  · exact (alive_singleton.mp stored).held element rfl
  · obtain rfl : target = object := (links_copy.of_ok copied).2 target name rfl
    exact live

private theorem failsCleanly_push (sound : world.Sound) (used : object ∈ world.inUse) :
    FailsCleanly list (push list object config) world := by
  apply FailsCleanly.bind Meets.requireChangeable
  rintro _ after - ⟨rfl, -⟩
  apply FailsCleanly.bind Meets.requireRoom
  rintro _ after - rfl
  refine (failsCleanly_copy sound.ordered).bind_gives fun slot middle copied => ?_
  obtain ⟨began, alive, -⟩ := (safe_copy (sound.inUse used)).of_ok sound copied
  apply gives_extend.bind
  rintro _ last rfl
  have live := began.isLive (sound.inUse used)
  refine gives_element (isLive_of_copy copied (isLive_change.trans live) (alive_singleton.mpr ⟨fun element holds => ?_, ?_⟩))
  · exact isLive_change.trans ((alive_singleton.mp alive).held element holds)
  · exact (alive_singleton.mp alive).target.trans_eq heap_size_change.symm

private theorem failsCleanly_pushItself : FailsCleanly list (pushItself list object) world := by
  apply FailsCleanly.bind Meets.requireChangeable
  rintro _ after - ⟨rfl, -⟩
  apply FailsCleanly.bind Meets.requireRoom
  rintro _ after - rfl
  split
  next => exact .look (.of_gives gives_extend)
  next => exact .of_gives gives_extend

private theorem failsCleanly_append (ordered : world.Ordered) : FailsCleanly list (append list other config) world := by
  apply FailsCleanly.bind Meets.requireChangeable
  rintro _ after - ⟨rfl, -⟩
  have plans : Meets quiet (planSlots (plan config) other) after _ := meets_planSlots_plan ordered closed_everything trivial
  refine .bind plans.sparing fun copies _ _ _ => .bind Meets.requireRoom fun _ last _ _ => ?_
  exact .of_gives ((gives_makeAll copies last).bind fun _ _ _ => gives_extend.forget)

private theorem failsCleanly_appendThemselves : FailsCleanly list (appendThemselves list other) world := by
  apply FailsCleanly.bind Meets.requireChangeable
  rintro _ after - ⟨rfl, -⟩
  exact .look (.bind Meets.requireRoom fun _ _ _ _ => .of_gives gives_extend)

private theorem failsCleanly_insert : FailsCleanly list (insert list index config) world := by
  have places (position : Nat) (world : World) : Gives (insertZero list config position) world fun _ _ => True :=
    ⟨_, _, insertZero_eq, trivial⟩
  apply FailsCleanly.bind Meets.requireChangeable
  rintro _ after - ⟨rfl, -⟩
  apply FailsCleanly.bind Meets.requireRoom
  rintro _ after - rfl
  refine .look ?_
  dsimp only
  split
  next => exact .of_gives (places _ _)
  next => exact failsCleanly_position.bind_gives fun position after _ => places position after

/-- Once an element is copied, nothing keeps it from taking its place. -/
private theorem failsCleanly_place {position : Nat} (sound : world.Sound) (inside : position < world.length list)
    (used : list ∈ world.inUse) (argument : object ∈ world.inUse) :
    FailsCleanly list (do
      let slot ← copy config object
      replaceSlot list position slot
      element slot : Act Ref) world := by
  refine (failsCleanly_copy sound.ordered).bind_gives fun slot middle copied => ?_
  obtain ⟨began, alive, keeps⟩ := (safe_copy (sound.inUse argument)).of_ok sound copied
  have soundMiddle := began.sound sound
  have still : position < middle.length list :=
    inside.trans_eq (keeps.length_eq (lt_size_of_isLive (sound.inUse used))).symm
  refine ((gives_replaceSlot still).of_safe (safe_replaceSlot (began.mem_inUse used) alive) soundMiddle).bind ?_
  rintro _ last ⟨went, stored⟩
  exact gives_element (isLive_of_copy copied ((went.sound soundMiddle).inUse (went.mem_inUse (began.mem_inUse argument))) stored)

/-- A list that grows to an index gets new elements. -/
theorem gives_growth (isList : world.kindOf list = .list) (changeable : world.isConstant list = false)
    (lenient : config.strictLists = false) (past : world.length list ≤ index) (fits : index < Limits.listLength) :
    Gives (position list index config) world fun position after => position = index.toNat ∧
      ∃ made : List Ref, (∀ ref ∈ made, world.heap.size ≤ ref) ∧ made.length = index.toNat + 1 - world.length list ∧
        after.slots list = world.slots list ++ made.map .held :=
  ⟨_, _, position_of_fitting changeable lenient past fits, rfl, _, fun _ => size_le_of_mem_upcoming, length_upcoming,
    slots_grown isList⟩

/-- An index that no list can have stops the growth. -/
theorem position_of_long (past : world.length list ≤ index) (lenient : ¬ config.strictLists = true)
    (long : Limits.listLength ≤ index) : position list index config world =
      .error (.ofCause (.listTooBig (min (index + 1) (Limits.integerBound - 1)) Limits.listLength)) world := by
  have outside : Limits.listLength < min (index + 1) (Limits.integerBound - 1) := by
    unfold Limits.listLength Limits.integerBound at *
    omega
  rw [position_of_growth past lenient, resize, if_pos (.inr outside)]
  rfl

private theorem meets_position_of_long {guarantee : Guarantee} (long : Limits.listLength ≤ index) :
    Meets guarantee (position list index config) world fun position after =>
      after = world ∧ world.placeOf? list index = some position ∧ position < world.length list := by
  by_cases short : index < world.length list ∨ config.strictLists = true
  · exact meets_position_of_short short
  · obtain ⟨past, lenient⟩ := not_or.mp short
    unfold Meets
    rw [position_of_long (Int.not_lt.mp past) lenient long]
    exact ⟨guarantee.refl world, guarantee.anomalies⟩

/-- Unless the list grows to an index, finding its position changes nothing. -/
theorem meets_position_within {guarantee : Guarantee}
    (within : ¬ (config.strictLists = false ∧ world.length list ≤ index ∧ index < Limits.listLength)) :
    Meets guarantee (position list index config) world fun position after =>
      after = world ∧ world.placeOf? list index = some position ∧ position < world.length list := by
  by_cases short : index < world.length list ∨ config.strictLists = true
  · exact meets_position_of_short short
  · obtain ⟨past, lenient⟩ := not_or.mp short
    exact meets_position_of_long (Int.not_lt.mp fun fits => within ⟨Bool.not_eq_true _ ▸ lenient, Int.not_lt.mp past, fits⟩)

private theorem failsCleanly_replace (sound : world.Sound) (used : list ∈ world.inUse) (argument : object ∈ world.inUse)
    (within : ¬ (Mutation.replace index object).Outgrows world list config) :
    FailsCleanly list (replace list index object config) world := by
  apply FailsCleanly.bind Meets.requireChangeable
  rintro _ after - ⟨rfl, changeable⟩
  refine .bind (meets_position_within fun ⟨lenient, past, fits⟩ => within ⟨lenient, changeable, past, fits⟩) ?_
  rintro position _ - ⟨rfl, -, inside⟩
  exact failsCleanly_place sound inside used argument

/-- Where the list has to grow, it has grown when the copy fails. -/
private theorem grown_of_failed_replace (sound : world.Sound) (isList : world.kindOf list = .list)
    (used : list ∈ world.inUse)
    (argument : object ∈ world.inUse) (grows : (Mutation.replace index object).Outgrows world list config)
    {stop : Stop} {after : World} (stopped : replace list index object config world = .error stop after) :
    ∃ zeros, zeros.length = index.toNat + 1 - world.length list ∧ after.slots list = world.slots list ++ zeros := by
  obtain ⟨_, start, changeable, same⟩ := gives_requireChangeable grows.2.1
  rw [same] at changeable
  obtain ⟨_, middle, found, rfl, made, -, counted, grown⟩ :=
    gives_growth isList grows.2.1 grows.1 grows.2.2.1 grows.2.2.2
  obtain ⟨began, -⟩ := safe_position.of_ok sound found
  have placing := (bind_of_ok found).symm.trans ((bind_of_ok changeable).symm.trans stopped)
  have inside : index.toNat < middle.length list := by
    have counted : (middle.slots list).length = world.length list + made.length := by
      rw [grown, List.length_append, List.length_map]
      rfl
    have past := grows.2.2.1
    change index.toNat < (middle.slots list).length
    omega
  have clean := failsCleanly_place (began.sound sound) inside (began.mem_inUse used)
    (began.mem_inUse argument) stop after placing
  exact ⟨made.map .held, (List.length_map _).trans counted, clean.trans grown⟩

private theorem failsCleanly_mutate {mutation : Mutation} (sound : world.Sound) (used : list ∈ world.inUse)
    (stores : mutation.stores = true) (given : ∀ object ∈ mutation.argument?, object ∈ world.inUse)
    (within : ¬ mutation.Outgrows world list config) : FailsCleanly list (mutate list config mutation) world := by
  cases mutation with
  | resize => exact failsCleanly_resize
  | push object => exact (failsCleanly_push sound (given object rfl)).bind_gives fun _ _ _ => .pure trivial
  | pushItself => exact failsCleanly_pushItself
  | append => exact failsCleanly_append sound.ordered
  | appendThemselves => exact failsCleanly_appendThemselves
  | replace index object =>
    exact (failsCleanly_replace sound used (given object rfl) within).bind_gives fun _ _ _ => .pure trivial
  | insert => exact failsCleanly_insert.bind_gives fun _ _ _ => .pure trivial
  | _ => cases stores

end Act

namespace World

open Act

variable {world : World} {list : Ref} {mutation : Mutation}

/-- A store that fails leaves the slots of the list as they were, its length included, unless it is a replacement for
which the list has grown: then zeros have been appended to them. -/
theorem failed_store_keeps_slots_iff (ongoing : world.Ongoing) (isList : world.kindOf list = .list)
    (used : list ∈ world.inUse) (stores : mutation.stores = true)
    (given : ∀ object ∈ mutation.argument?, object ∈ world.inUse) (config : Config) :
    ∀ stop after, mutate list config mutation world = .error stop after →
      world.slots list <+: after.slots list ∧
      (after.slots list = world.slots list ↔ ¬ mutation.Outgrows world list config) := by
  intro stop after stopped
  by_cases grows : mutation.Outgrows world list config
  · cases mutation with
    | replace index object =>
      have failed : replace list index object config world = .error stop after := by
        cases ran : replace list index object config world with
        | ok value last => cases (bind_of_ok ran).symm.trans stopped
        | error early last =>
          obtain ⟨rfl, rfl⟩ := EStateM.Result.error.inj ((bind_of_error ran).symm.trans stopped)
          rfl
      obtain ⟨zeros, counted, grown⟩ :=
        grown_of_failed_replace ongoing.sound isList used (given object rfl) grows failed
      refine ⟨⟨zeros, grown.symm⟩, fun same => ?_, fun within => absurd grows within⟩
      have none : zeros.length = 0 := by simpa [grown] using same
      have past := grows.2.2.1
      omega
    | _ => exact grows.elim
  · have same := failsCleanly_mutate ongoing.sound used stores given grows stop after stopped
    exact ⟨by rw [same], fun _ => grows, fun _ => same⟩

/-- A list, and a variable that is bound to the length of another one that has gone. -/
def lostLength : List Step :=
  [{ action := .create (.list "l"), name := some "l" }, { action := .create (.list "m"), name := some "m" },
    { action := .list .length, target := some "m", name := some "n" }, { action := .handles (.drop "m") }]

/-- The same with both in use. -/
def lostLengthInUse : World := { (runAll {} lostLength).2 with inUse := [0, 2] ++ (runAll {} lostLength).2.inUse }

/-- The variable cannot be pushed, and the list stays empty. -/
theorem failed_store_keeps_slots_of_push :
    stop? (mutate 0 {} (.push 2)) lostLengthInUse = some (.ofCause (.notFound "m")) ∧
      ∀ stop after, mutate 0 {} (.push 2) lostLengthInUse = .error stop after → after.slots 0 = [] := by
  have ongoing : lostLengthInUse.Ongoing :=
    Ongoing.use (Reachable.ongoing (.runAll (.start {}) _)) (by decide +kernel)
  have isList : lostLengthInUse.kindOf 0 = .list := by decide +kernel
  have used : 0 ∈ lostLengthInUse.inUse := by decide +kernel
  have given : ∀ object ∈ (Mutation.push 2).argument?, object ∈ lostLengthInUse.inUse := by
    rintro _ ⟨⟩
    decide +kernel
  refine ⟨by decide +kernel, fun stop after stopped => ?_⟩
  have kept := failed_store_keeps_slots_iff ongoing isList used (show (Mutation.push 2).stores = true from rfl) given {}
    stop after stopped
  exact (kept.2.mpr not_false).trans (by decide +kernel)

/-- Replacing an element past the end of the list by the variable fails, but the list has grown. -/
theorem length_gained_by_replacement :
    (runAll {} lostLength).2.length 0 = 0 ∧
      ((runAll {} lostLength).2.run { action := .list (.replace 2 (.handle "n")), target := some "l" }).1.stop? =
        some (.ofCause (.notFound "m")) ∧
      ((runAll {} lostLength).2.run { action := .list (.replace 2 (.handle "n")), target := some "l" }).2.length 0 = 3 := by
  decide +kernel

end World

end Dialogue
