import Dialogue.Proofs.FailedStores

/-! Elements that are taken out of lists. Whoever takes an element out is given the object that its slot refers to, and
the other slots stay in order. The slot is out of the list before it is read, so an alias of an object that is gone is
lost together with the error that reports it; whatever else keeps an element from being taken out changes nothing. -/

namespace Dialogue

/-- Which element is taken out of a list. -/
inductive Removal where
  | last
  | place (index : Int)

def Removal.index : Removal → Int
  | last => -1
  | place index => index

namespace World

variable {world : World} {list : Ref} {index : Int}

/-- Whether a list that may be changed has an alias of an object that is gone where an index means. -/
def Loses (world : World) (list : Ref) (index : Int) : Prop :=
  world.isConstant list = false ∧ ∃ position target name, world.placeOf? list index = some position ∧
    (world.slots list)[position]? = some (.link target name) ∧ world.isLive target = false

theorem Loses.inside (loses : world.Loses list index) :
    ∃ position, world.placeOf? list index = some position ∧ position < world.length list := by
  obtain ⟨-, position, target, name, means, found, -⟩ := loses
  exact ⟨position, means, (List.getElem?_eq_some_iff.mp found).1⟩

private theorem placeOf?_last (filled : world.slots list ≠ []) :
    world.placeOf? list (-1) = some (world.length list - 1) := by
  have positive : 0 < world.length list := List.length_pos_iff.mpr filled
  rw [placeOf?, if_neg (by decide), if_pos (by omega)]
  congr 1
  omega

end World

namespace Act

open World

variable {world : World} {list : Ref} {config : Config} {index : Int} {position : Nat} {slot : Slot}

def takeOut (list : Ref) (config : Config) : Removal → Act Ref
  | .last => pop list
  | .place index => remove list index config

/-- What comes of taking out the element at an index. -/
inductive Taken (world : World) (list : Ref) (index : Int) : EStateM.Result Stop World Ref → Prop
  | refused {stop : Stop} (keeps : ¬ world.Loses list index) : Taken world list index (.error stop world)
  /-- The list may have got new objects up to the index. -/
  | handed {position : Nat} {made : List Ref} {slot : Slot} {after : World}
      (means : world.placeOf? list index = some position) (fresh : ∀ ref ∈ made, world.heap.size ≤ ref)
      (counted : made.length = position + 1 - world.length list)
      (found : (world.slots list ++ made.map Slot.held)[position]? = some slot) (live : after.isLive slot.target = true)
      (rest : after.slots list = (world.slots list ++ made.map Slot.held).eraseIdx position) :
      Taken world list index (.ok slot.target after)
  | lost {position : Nat} {stop : Stop} {after : World} (loses : world.Loses list index)
      (means : world.placeOf? list index = some position)
      (rest : after.slots list = (world.slots list).eraseIdx position) : Taken world list index (.error stop after)

/-- Acts that change nothing. -/
def unchanging : Guarantee where
  keeps world after := after = world
  allows _ _ := True
  refl _ := rfl
  trans first second := second.trans first
  earlier _ _ := trivial
  anomalies := trivial

theorem gives_position_inside (config : Config) (means : world.placeOf? list index = some position)
    (inside : position < world.length list) :
    Gives (Act.position list index config) world fun found after => found = position ∧ after = world := by
  rw [placeOf?] at means
  refine .look ?_
  split_ifs at means with counted within
  · obtain rfl := Option.some.inj means
    rw [if_neg (by omega), if_pos (by omega)]
    exact .pure ⟨rfl, rfl⟩
  · obtain rfl := Option.some.inj means
    rw [if_pos (by omega), if_pos within]
    exact .pure ⟨rfl, rfl⟩

/-- An index that the list neither has nor grows to stops the search for its position. -/
private theorem unchanging_position
    (outside : ∀ position, world.placeOf? list index = some position → world.length list ≤ position)
    (within : ¬ (config.strictLists = false ∧ world.length list ≤ index ∧ index < Limits.listLength)) :
    Meets unchanging (Act.position list index config) world fun _ _ => False :=
  (meets_position_within within).weaken fun position _ _ ⟨_, means, inside⟩ =>
    absurd inside (Nat.not_lt.mpr (outside position means))

/-- Leaves a slot out by some rule and then reads it. -/
def takeSlot (list : Ref) (rule : List Slot → List Slot) (slot : Slot) : Act Ref := do
  update (·.changeSlots list rule)
  element slot

variable {rule : List Slot → List Slot}

private theorem gives_takeSlot (rule : List Slot → List Slot) (isList : world.kindOf list = .list) {slot : Slot}
    (live : world.isLive slot.target = true) :
    Gives (takeSlot list rule slot) world fun element after => element = slot.target ∧
      after.isLive slot.target = true ∧ after.slots list = rule (world.slots list) := by
  have kept : (world.changeSlots list rule).isLive slot.target = true := isLive_change.trans live
  have rest : (world.changeSlots list rule).slots list = rule (world.slots list) := by
    rw [slots_changeSlots, if_pos ⟨rfl, isList⟩]
  exact ⟨_, _, element_of_live kept, rfl, kept, rest⟩

/-- An element of the list as it was is handed over, or lost if it is an alias of an object that is gone. -/
private theorem taken_takeSlot (sound : world.Sound) (isList : world.kindOf list = .list)
    (changeable : world.isConstant list = false) (means : world.placeOf? list index = some position)
    (found : (world.slots list)[position]? = some slot)
    (leaves : rule (world.slots list) = (world.slots list).eraseIdx position) :
    Taken world list index (takeSlot list rule slot world) := by
  by_cases live : world.isLive slot.target = true
  · obtain ⟨_, after, ran, rfl, kept, rest⟩ := gives_takeSlot rule isList live
    obtain ⟨inside, -⟩ := List.getElem?_eq_some_iff.mp found
    rw [ran]
    have none : ([] : List Ref).length = position + 1 - world.length list := (Nat.sub_eq_zero_of_le inside).symm
    exact .handed means (by simp) none (by simpa using found) kept (by simpa [leaves] using rest)
  · rcases slot with held | ⟨target, name⟩
    · exact absurd ((sound.knows (List.mem_of_getElem? found)).held held rfl) live
    · have gone : world.isLive target = false := Bool.not_eq_true _ ▸ live
      have stops : takeSlot list rule (.link target name) world =
          .error (.ofCause (.notFound name)) (world.changeSlots list rule) :=
        demand_of_gone (isLive_change.trans gone)
      rw [stops]
      refine .lost ⟨changeable, position, target, name, means, found, gone⟩ means ?_
      rw [slots_changeSlots, if_pos ⟨rfl, isList⟩, leaves]

private theorem not_loses_of_isConstant (constant : world.isConstant list = true) : ¬ world.Loses list index :=
  fun loses => Bool.false_ne_true (loses.1.symm.trans constant)

private theorem taken_pop (sound : world.Sound) (isList : world.kindOf list = .list) :
    Taken world list (-1) (pop list world) := by
  cases constant : world.isConstant list with
  | true =>
    rw [pop, (refuses_requireChangeable constant).bind]
    exact .refused (not_loses_of_isConstant constant)
  | false =>
    rw [pop, bind_of_ok (requireChangeable_of_changeable constant), see_bind]
    cases last : (world.slots list).getLast? with
    | none =>
      have empty := List.getLast?_eq_none_iff.mp last
      refine .refused fun loses => ?_
      obtain ⟨position, -, inside⟩ := loses.inside
      simp [World.length, empty] at inside
    | some slot =>
      have filled : world.slots list ≠ [] := fun empty => by simp [empty] at last
      exact taken_takeSlot sound isList constant (placeOf?_last filled)
        ((List.getLast?_eq_getElem? ..).symm.trans last) (List.eraseIdx_length_sub_one ..).symm

/-- The last of the objects that a list has grown by is at the index. -/
private theorem getElem?_grown {slots : List Slot} {made : List Ref} (past : slots.length ≤ position)
    (counted : made.length = position + 1 - slots.length) :
    ∃ ref, (slots ++ made.map Slot.held)[position]? = some (.held ref) := by
  have inside : position - slots.length < made.length := by omega
  refine ⟨made[position - slots.length], ?_⟩
  rw [List.getElem?_append_right past, List.getElem?_map, List.getElem?_eq_getElem inside]
  rfl

private theorem taken_remove (sound : world.Sound) (isList : world.kindOf list = .list) :
    Taken world list index (remove list index config world) := by
  cases constant : world.isConstant list with
  | true =>
    rw [remove, (refuses_requireChangeable constant).bind]
    exact .refused (not_loses_of_isConstant constant)
  | false =>
    rw [remove, bind_of_ok (requireChangeable_of_changeable constant)]
    by_cases inside : ∃ position, world.placeOf? list index = some position ∧ position < world.length list
    · obtain ⟨position, means, inside⟩ := inside
      obtain ⟨_, _, found, rfl, rfl⟩ := gives_position_inside config means inside
      rw [bind_of_ok found, see_bind, List.getElem?_eq_getElem inside]
      exact taken_takeSlot sound isList constant means (List.getElem?_eq_getElem inside) rfl
    · by_cases grows : config.strictLists = false ∧ world.length list ≤ index ∧ index < Limits.listLength
      · obtain ⟨lenient, past, fits⟩ := grows
        obtain ⟨_, middle, found, rfl, made, fresh, counted, grown⟩ :=
          gives_growth isList constant lenient past fits
        obtain ⟨began, -⟩ := safe_position.of_ok sound found
        have further : (world.slots list).length ≤ index.toNat := (Int.le_toNat (by omega)).mpr past
        obtain ⟨ref, last⟩ := getElem?_grown further counted
        rw [bind_of_ok found, see_bind, grown, last]
        have stored : Slot.held ref ∈ middle.slots list := grown ▸ List.mem_of_getElem? last
        have live : middle.isLive (Slot.held ref).target = true := ((began.sound sound).knows stored).held ref rfl
        obtain ⟨_, after, ran, same, kept, rest⟩ :=
          gives_takeSlot (·.eraseIdx index.toNat) (kindOf_eq_list_of_mem_slots stored) live
        change Taken world list index (takeSlot list (·.eraseIdx index.toNat) (.held ref) middle)
        rw [ran, same]
        exact .handed (by rw [placeOf?, if_pos (by omega)]) fresh counted last kept (grown ▸ rest)
      · have stops := unchanging_position
          (fun position means => Nat.not_lt.mp fun small => inside ⟨position, means, small⟩) grows
        cases ran : Act.position list index config world with
        | ok position after => exact ((stops.of_ok ran).2).elim
        | error stop after =>
          obtain rfl := (stops.of_error ran).1
          rw [bind_of_error ran]
          exact .refused fun loses => inside loses.inside

private theorem taken_takeOut (sound : world.Sound) (isList : world.kindOf list = .list) (config : Config)
    (removal : Removal) :
    Taken world list removal.index (takeOut list config removal world) := by
  cases removal with
  | last => exact taken_pop sound isList
  | place => exact taken_remove sound isList

end Act

namespace World

open Act

variable {world : World} {list : Ref}

/-- Whoever takes out an element is given what its slot refers to, the zeros that the list may grow by included, and the
other slots stay in order. Where nothing is given, nothing has changed, unless an alias of an object that is gone was
to be taken out: then its slot is gone as well. -/
theorem taken_or_kept_iff (ongoing : world.Ongoing) (isList : world.kindOf list = .list) (config : Config)
    (removal : Removal) :
    (∀ element after, takeOut list config removal world = .ok element after →
      ∃ (position : Nat) (made : List Ref) (slot : Slot), world.placeOf? list removal.index = some position ∧
        (∀ ref ∈ made, world.heap.size ≤ ref) ∧
        made.length = position + 1 - world.length list ∧
        (world.slots list ++ made.map Slot.held)[position]? = some slot ∧ slot.target = element ∧
        after.isLive element = true ∧
        after.slots list = (world.slots list ++ made.map Slot.held).eraseIdx position) ∧
    ∀ stop after, takeOut list config removal world = .error stop after →
      (after.slots list = world.slots list ↔ ¬ world.Loses list removal.index) ∧
      (¬ world.Loses list removal.index → after = world) ∧
      (world.Loses list removal.index → ∃ position, world.placeOf? list removal.index = some position ∧
        after.slots list = (world.slots list).eraseIdx position) := by
  have taken := taken_takeOut ongoing.sound isList config removal
  constructor
  · intro element after ran
    rw [ran] at taken
    cases taken with
    | handed means fresh counted found live rest => exact ⟨_, _, _, means, fresh, counted, found, rfl, live, rest⟩
  · intro stop after ran
    rw [ran] at taken
    cases taken with
    | refused keeps => exact ⟨⟨fun _ => keeps, fun _ => rfl⟩, fun _ => rfl, fun loses => absurd loses keeps⟩
    | lost loses means rest =>
      refine ⟨⟨fun same => ?_, fun keeps => absurd loses keeps⟩, fun keeps => absurd loses keeps, fun _ => ⟨_, means, rest⟩⟩
      obtain ⟨position, other, inside⟩ := loses.inside
      obtain rfl := Option.some.inj (means.symm.trans other)
      have shorter := congrArg List.length (same.symm.trans rest)
      have inside : _ < (world.slots list).length := inside
      rw [List.length_eraseIdx_of_lt inside] at shorter
      omega

/-- A list with an alias of a member of a scope that goes, and with it the member. -/
def orphanedAlias : List Step :=
  [{ action := .create (.scope "x"), name := some "x" }, { action := .create (.plain "y"), name := some "y" },
    { action := .scope (.register (.handle "y")), target := some "x" }, { action := .create (.list "l"), name := some "l" },
    { action := .list (.push (.handle "y")), target := some "l" }, { action := .handles (.drop "y") },
    { action := .handles (.drop "x") }]

/-- The same with another element after the alias. -/
def orphanedAliasFirst : World :=
  (runAll {} (orphanedAlias ++ [{ action := .list (.push (.value (.text "b"))), target := some "l" }])).2

/-- The other element is taken out, and the alias stays. -/
theorem taken_or_kept_of_last :
    ∃ element after, takeOut 2 {} .last orphanedAliasFirst = .ok element after ∧ after.isLive element = true ∧
      after.slots 2 = [.link 1 "x:y"] := by
  have ongoing : orphanedAliasFirst.Ongoing := Reachable.ongoing (.runAll (.start {}) _)
  have isList : orphanedAliasFirst.kindOf 2 = .list := by decide +kernel
  have slots : orphanedAliasFirst.slots 2 = [.link 1 "x:y", .held 4] := by decide +kernel
  have means : orphanedAliasFirst.placeOf? 2 (-1) = some 1 := by decide +kernel
  have given : stop? (takeOut 2 {} .last) orphanedAliasFirst = none := by decide +kernel
  cases ran : takeOut 2 {} .last orphanedAliasFirst with
  | error stop after =>
    rw [stop?, ran] at given
    cases given
  | ok element after =>
    obtain ⟨position, made, slot, place, -, counted, -, -, live, rest⟩ :=
      (taken_or_kept_iff ongoing isList {} .last).1 element after ran
    obtain rfl := Option.some.inj (means.symm.trans place)
    obtain rfl : made = [] := List.eq_nil_of_length_eq_zero (by simpa [World.length, slots] using counted)
    exact ⟨element, after, rfl, live, by simpa [slots] using rest⟩

/-- Taking out the alias fails, and the list is empty then. -/
theorem alias_lost_by_pop :
    (runAll {} orphanedAlias).2.length 2 = 1 ∧
      ((runAll {} orphanedAlias).2.run { action := .list .pop, target := some "l" }).1.stop? =
        some (.ofCause (.notFound "x:y")) ∧
      ((runAll {} orphanedAlias).2.run { action := .list .pop, target := some "l" }).2.length 2 = 0 := by
  decide +kernel

end World

end Dialogue
