import Dialogue.Proofs.AssignedTrees
import Dialogue.Proofs.MachineDecimals
import Dialogue.Proofs.ReadableCopies

/-! Indices of scripts. Whatever is done at an index of a list is done at one position: getting, replacing and
removing an element and inserting one agree on it, and on the zeros that a list gets before where lists are not
strict. Only an insertion at the very end needs no position that the list has. -/

namespace Dialogue

/-- What is done at an index of a list. -/
inductive Access where
  | get
  | replace (object : Ref)
  | remove
  | insert

def Access.act (list : Ref) (index : Int) (config : Config) : Access → Act Ref
  | get => Act.get list index config
  | replace object => Act.replace list index object config
  | remove => Act.remove list index config
  | insert => Act.insert list index config

/-- What a list makes of an index: a position that it has, none, or a size to grow to. -/
inductive Place where
  | inside (position : Nat)
  | missing
  | beyond (size : Int)

/-- A size ends at the largest integer of 64 bits. -/
def Place.of (length : Nat) (index : Int) (strict : Bool) : Place :=
  if index < 0 then if 0 ≤ length + index then .inside (length + index).toNat else .missing
  else if index < length then .inside index.toNat
  else if strict then .missing
  else .beyond (min (index + 1) (Limits.integerBound - 1))

/-- The same worked out with integers of 64 bits, unless an operation on them overflows. -/
def Machine.place {ε : Type} (length : Nat) (index : Int) (strict : Bool) : Except (Failure ε) Place := do
  let counted := min (length : Int) (Limits.integerBound - 1)
  if index < 0 then
    let position ← integer (counted + index)
    return if 0 ≤ position then .inside position.toNat else .missing
  else if index < counted then return .inside index.toNat
  else if strict then return .missing
  else return .beyond (min (index + 1) (Limits.integerBound - 1))

/-- What a list does where an index has led. -/
def Place.reach (list : Ref) (index : Int) (config : Config) : Place → Act Nat
  | inside position => return position
  | missing => do Act.raise (.noElement index (← Act.see (·.length list)))
  | beyond size => do
    Act.resize list size config
    return index.toNat

/-- An access that starts in one world acts at a position of the list as it is in another one, where the list may have
grown, and on nothing else. -/
def Access.ActsAt (world start : World) (list : Ref) (index : Int) (config : Config) (position : Nat) : Access → Prop
  | get => ∃ slot, (start.slots list)[position]? = some slot ∧ Act.get list index config world = .ok slot.target start
  | replace object => object ∈ world.inUse → ∀ value, world.HasValue config object value →
      ∃ previous slot made after, (start.slots list)[position]? = some previous ∧
        Act.copy config object start = .ok slot made ∧ Act.replace list index object config world = .ok slot.target after ∧
          after = (made.changeSlots list (·.set position slot)).releaseAll previous.held?.toList ∧
            after.slots list = (start.slots list).set position slot
  | remove => ∃ slot after, (start.slots list)[position]? = some slot ∧
      Act.remove list index config world = .ok slot.target after ∧
        after = start.changeSlots list (·.eraseIdx position) ∧ after.slots list = (start.slots list).eraseIdx position
  | insert => ∃ after, Act.insert list index config world = .ok start.heap.size after ∧
      after = (start.add (.zero config)).changeSlots list (·.insertIdx position (.held start.heap.size)) ∧
        after.object? start.heap.size = some (.zero config) ∧
          after.slots list = (start.slots list).insertIdx position (.held start.heap.size)

namespace Machine

variable {ε : Type} {length : Nat} {index : Int} {strict : Bool}

/-- No operation on integers of 64 bits overflows on the way. -/
private theorem place_eq (counts : length < Limits.integerBound) (least : -Limits.integerBound ≤ index) :
    place length index strict = (.ok (.of length index strict) : Except (Failure ε) Place) := by
  have counted : min (length : Int) (Limits.integerBound - 1) = length := by omega
  by_cases negative : index < 0
  · have holds : Holds (length + index) := ⟨by omega, by omega⟩
    simp only [place, Place.of, counted, if_pos negative, integer_eq holds]
    rfl
  · simp only [place, Place.of, counted, if_neg negative]
    split_ifs <;> rfl

end Machine

namespace World

variable {world : World} {list ref : Ref} {config : Config} {count : Nat}

theorem object?_grown (apart : ref ≠ list) : (world.grown list config count).object? ref =
    if ref ∈ world.upcoming count then some (.zero config) else world.object? ref := by
  rw [grown, changeSlots, changeList, object?_change, if_neg apart.symm, object?_addZeros]

private theorem config_addZeros : (world.addZeros config count).config = world.config := by
  induction count generalizing world with
  | zero => rfl
  | succ count ih => exact ih

private theorem covers_grown (sound : world.Sound) (holds : (world.length list + count : Int) < Limits.integerBound) :
    Covers (world.isLive · = true) (· ∈ world.upcoming count) world (world.grown list config count) where
  settings := config_addZeros
  live := .rfl
  bodies := by
    intro ref body found
    have outside := not_mem_upcoming count (lt_size_of_isLive (isLive_iff_body?.mpr ⟨body, found⟩))
    by_cases same : ref = list
    · subst same
      obtain ⟨⟨name, body, constant, parent⟩, present, rfl⟩ := Option.map_eq_some_iff.mp found
      rw [body?, grown, changeSlots, changeList, object?_change, if_pos rfl, object?_addZeros, if_neg outside, present]
      cases body with
      | list data =>
        have former : world.slots ref = data.slots := by
          rw [slots, World.list?, body?, present]
          rfl
        refine ⟨_, rfl, .list (fun _ => id) fun _ => ?_⟩
        rw [World.length, former] at holds
        simpa [World.upcoming] using holds
      | _ => exact ⟨_, rfl, .refl _ _⟩
    · exact ⟨body, by rwa [body?, object?_grown same, if_neg outside], .refl _ _⟩
  holds := sound.held
  stores := by
    intro ref fresh
    refine ⟨.number (.zero config.precision), ?_, fun _ => ?_⟩
    · rw [grown, changeSlots, storage?_changeList, storage?, body?, object?_addZeros, if_pos fresh]
      rfl
    · exact ⟨"0", Number.proper_zero.text_eq _⟩

end World

namespace Act

open World

variable {world : World} {list : Ref} {index : Int} {config : Config} {position : Nat}

theorem position_eq : Act.position list index config world =
    (Place.of (world.length list) index config.strictLists).reach list index config world := by
  change (if index < 0 then _ else if index < world.length list then _ else if config.strictLists = true then _ else _ :
    Act Nat) world = _
  unfold Place.of
  split_ifs <;> rfl

private theorem position_of_before (before : world.placeOf? list index = none) : Act.position list index config world =
    .error (.ofCause (.noElement index (world.length list))) world := by
  rw [placeOf?] at before
  split_ifs at before with counted within
  rw [position_eq, Place.of, if_pos (Int.not_le.mp counted), if_neg within]
  rfl

private theorem position_of_strict (past : world.length list ≤ index) (strict : config.strictLists = true) :
    Act.position list index config world = .error (.ofCause (.noElement index (world.length list))) world := by
  rw [position_eq, Place.of, if_neg (by omega), if_neg (by omega), if_pos strict]
  rfl

end Act

namespace Access

open World Act

variable {world start : World} {list : Ref} {index : Int} {config : Config} {position : Nat} {access : Access}

/-- An index comes to a position that the list has, maybe once it has grown. -/
structure Located (world start : World) (list : Ref) (index : Int) (config : Config) (position : Nat) : Prop where
  found : Act.position list index config world = .ok position start
  isList : start.kindOf list = .list
  inside : position < start.length list
  intact : ∀ slot ∈ start.slots list, start.isLive slot.target = true
  covers : ∃ new, Covers (world.isLive · = true) new world start

/-- Whatever keeps the position of an index from being found stops an access. -/
theorem act_of_error {stop : Stop} {after : World} (changeable : world.isConstant list = false)
    (short : world.length list < Limits.listLength) (apart : ¬ (access = .insert ∧ index = world.length list))
    (stopped : Act.position list index config world = .error stop after) :
    access.act list index config world = .error stop after := by
  have ready := requireChangeable_of_changeable changeable
  cases access with
  | get => exact bind_of_error stopped
  | replace => exact (bind_of_ok ready).trans (bind_of_error stopped)
  | remove => exact (bind_of_ok ready).trans (bind_of_error stopped)
  | insert =>
    have before : index ≠ world.length list := fun same => apart ⟨rfl, same⟩
    refine (insert_eq changeable short).trans ?_
    rw [if_neg before]
    exact bind_of_error stopped

private theorem actsAt_insert (isList : start.kindOf list = .list)
    (same : Act.insert list index config world = insertZero list config position start) :
    insert.ActsAt world start list index config position := by
  have old := lt_size_of_isLive (isLive_of_isList isList)
  have kept : (start.add (.zero config)).kindOf list = .list := by rwa [kindOf, object?_add, if_neg old.ne]
  refine ⟨_, same.trans insertZero_eq, rfl, ?_, ?_⟩
  · rw [changeSlots, changeList, object?_change, if_neg old.ne, object?_add, if_pos rfl]
  · rw [slots_changeSlots, if_pos ⟨rfl, kept⟩, slots_add, if_neg old.ne]

namespace Located

variable (located : Located world start list index config position)

include located

theorem slot : ∃ slot, (start.slots list)[position]? = some slot ∧ start.isLive slot.target = true := by
  have there := List.getElem?_eq_getElem located.inside
  exact ⟨_, there, located.intact _ (List.mem_of_getElem? there)⟩

theorem get : get.ActsAt world start list index config position := by
  obtain ⟨slot, there, live⟩ := located.slot
  refine ⟨slot, there, (bind_of_ok located.found).trans ?_⟩
  unfold elementAt
  rw [see_bind, there]
  exact element_of_live live

theorem remove (changeable : world.isConstant list = false) : remove.ActsAt world start list index config position := by
  obtain ⟨slot, there, live⟩ := located.slot
  refine ⟨slot, _, there, ?_, rfl, ?_⟩
  · refine (bind_of_ok (requireChangeable_of_changeable changeable)).trans ((bind_of_ok located.found).trans ?_)
    rw [see_bind, there]
    exact element_of_live (isLive_change.trans live)
  · rw [slots_changeSlots, if_pos ⟨rfl, located.isList⟩]

theorem insert (changeable : world.isConstant list = false) (short : world.length list < Limits.listLength)
    (before : index ≠ world.length list) : insert.ActsAt world start list index config position := by
  refine actsAt_insert located.isList ?_
  rw [insert_eq changeable short, if_neg before]
  exact bind_of_ok located.found

theorem replace {object : Ref} (sound : world.Sound) (used : list ∈ world.inUse)
    (changeable : world.isConstant list = false) :
    (replace object).ActsAt world start list index config position := by
  intro argument value has
  -- The argument is copied once the list has grown, and the list may be a part of it.
  obtain ⟨new, covers⟩ := located.covers
  have follows := (safe_position.of_ok sound located.found).1
  have began := follows.sound sound
  obtain ⟨slot, made, copied, -⟩ := has.copy covers (sound.inUse argument) began.ordered
  obtain ⟨went, alive, keeps⟩ := (safe_copy (began.inUse (follows.mem_inUse argument))).of_ok began copied
  have same := keeps list (lt_size_of_isLive (isLive_of_isList located.isList))
  obtain ⟨previous, there, -⟩ := located.slot
  have usedMade := went.mem_inUse (follows.mem_inUse used)
  obtain ⟨_, after, ran, -, placed⟩ := gives_replaceSlot_set (went.sound began) usedMade (same ▸ there) alive
  obtain ⟨settled, stored⟩ := (safe_replaceSlot usedMade alive).of_ok (went.sound began) ran
  have lives := (settled.sound (went.sound began)).inUse (settled.mem_inUse (went.mem_inUse (follows.mem_inUse argument)))
  obtain ⟨other, here, rfl⟩ := replaceSlot_ok_iff.mp ran
  obtain rfl := Option.some.inj (here.symm.trans (same ▸ there))
  refine ⟨_, slot, made, _, there, copied, ?_, rfl, placed.trans (by rw [same])⟩
  refine (bind_of_ok (requireChangeable_of_changeable changeable)).trans ((bind_of_ok located.found).trans ?_)
  exact (bind_of_ok copied).trans ((bind_of_ok ran).trans (element_of_live (isLive_of_copy copied lives stored)))

private theorem actsAt (sound : world.Sound) (used : list ∈ world.inUse) (changeable : world.isConstant list = false)
    (short : world.length list < Limits.listLength) (apart : ¬ (access = .insert ∧ index = world.length list)) :
    access.ActsAt world start list index config position := by
  cases access with
  | get => exact located.get
  | replace => exact located.replace sound used changeable
  | remove => exact located.remove changeable
  | insert => exact located.insert changeable short fun same => apart ⟨rfl, same⟩

end Located

end Access

namespace World

open Access

variable {world : World} {list : Ref} {index : Int} {config : Config}

/-- A list has got zeros of its own up to a size, while its former elements and all other objects are what they were. -/
structure ZeroFilled (world : World) (list : Ref) (config : Config) (size : Nat) (start : World) : Prop where
  length : start.length list = size
  slots : start.slots list =
    world.slots list ++ (world.upcoming (size - world.length list)).map .held
  zeros : ∀ ref ∈ world.upcoming (size - world.length list), start.object? ref = some (.zero config)
  others : ∀ ref, ref ≠ list → ref < world.heap.size → start.object? ref = world.object? ref

private theorem zeroFilled_grown {size : Nat} (isList : world.kindOf list = .list) (longer : world.length list ≤ size) :
    world.ZeroFilled list config size (world.grown list config (size - world.length list)) where
  length := (Act.grows_grown isList longer).length
  slots := slots_grown isList
  zeros := by
    intro ref fresh
    have apart : ref ≠ list := by
      rintro rfl
      exact not_mem_upcoming _ (lt_size_of_isLive (isLive_of_isList isList)) fresh
    rw [object?_grown apart, if_pos fresh]
  others := by
    intro ref apart old
    rw [object?_grown apart, if_neg (not_mem_upcoming _ old)]

private theorem located_inside {position : Nat} (sound : world.Sound) (isList : world.kindOf list = .list)
    (intact : ∀ slot ∈ world.slots list, world.isLive slot.target = true)
    (means : world.placeOf? list index = some position) (inside : position < world.length list) :
    Located world world list index config position := by
  obtain ⟨_, _, found, rfl, rfl⟩ := Act.gives_position_inside config means inside
  exact ⟨found, isList, inside, intact, _, sound.covers⟩

private theorem located_grown (sound : world.Sound) (isList : world.kindOf list = .list)
    (changeable : world.isConstant list = false)
    (intact : ∀ slot ∈ world.slots list, world.isLive slot.target = true) (past : world.length list ≤ index)
    (lenient : config.strictLists = false) (fits : index < Limits.listLength) :
    Located world (world.grown list config (index.toNat + 1 - world.length list)) list index config index.toNat := by
  have holds : (world.length list + (index.toNat + 1 - world.length list : Nat) : Int) < Limits.integerBound := by
    unfold Limits.listLength Limits.integerBound at *
    omega
  have covers : Covers _ _ world (world.grown list config (index.toNat + 1 - world.length list)) := covers_grown sound holds
  have filled : world.ZeroFilled list config (index.toNat + 1) _ := zeroFilled_grown isList (by omega)
  refine ⟨Act.position_of_fitting changeable lenient past fits, kindOf_changeSlots.trans (kindOf_addZeros isList), ?_, ?_, _, covers⟩
  · exact (Nat.lt_succ_self _).trans_eq filled.length.symm
  · intro slot member
    rw [filled.slots] at member
    rcases List.mem_append.mp member with old | made
    · exact covers.stays (intact slot old)
    · obtain ⟨ref, fresh, rfl⟩ := List.mem_map.mp made
      obtain ⟨value, stored, -⟩ := covers.stores fresh
      exact isLive_iff_body?.mpr ⟨_, storage?_eq_some.mp stored⟩

/-- What is done at an index of a list, whatever it is. -/
structure IndexMeans (world : World) (list : Ref) (index : Int) (config : Config) : Prop where
  /-- Integers of 64 bits are enough to find the position. -/
  counts : ∃ place, (Machine.place (world.length list) index config.strictLists : Except (Failure Cause) Place) = .ok place ∧
    Act.position list index config world = place.reach list index config world
  inside : ∀ position, world.placeOf? list index = some position → position < world.length list →
    ∀ access : Access, access.ActsAt world world list index config position
  before : world.placeOf? list index = none → ∀ access : Access,
    access.act list index config world = .error (.ofCause (.noElement index (world.length list))) world
  /-- A zero joins the list at its end, strict or not. -/
  ending : index = world.length list → Access.insert.ActsAt world world list index config (world.length list)
  strict : world.length list ≤ index → config.strictLists = true →
    ∀ access : Access, ¬ (access = .insert ∧ index = world.length list) →
      access.act list index config world = .error (.ofCause (.noElement index (world.length list))) world
  lenient : world.length list ≤ index → config.strictLists = false → index + 1 ≤ Limits.listLength →
    ∃ start, world.ZeroFilled list config (index.toNat + 1) start ∧
      ∀ access : Access, ¬ (access = .insert ∧ index = world.length list) →
        access.ActsAt world start list index config index.toNat
  huge : config.strictLists = false → Limits.listLength < index + 1 → ∀ access : Access,
    access.act list index config world =
      .error (.ofCause (.listTooBig (min (index + 1) (Limits.integerBound - 1)) Limits.listLength)) world

/-- Whatever is done at an index of a list that may change, has room and has no alias of what is gone is done at the
same position, or fails for the same cause and leaves everything as it is. -/
theorem index_means_one_position (ongoing : world.Ongoing) (isList : world.kindOf list = .list)
    (used : list ∈ world.inUse)
    (changeable : world.isConstant list = false) (short : world.length list < Limits.listLength)
    (intact : ∀ slot ∈ world.slots list, world.isLive slot.target = true) (least : -Limits.integerBound ≤ index)
    (config : Config) : world.IndexMeans list index config where
  counts := by
    have short : world.length list < Limits.integerBound := by
      unfold Limits.listLength Limits.integerBound at *
      omega
    exact ⟨_, Machine.place_eq short least, Act.position_eq⟩
  inside position means within access := by
    have located : Located world world list index config position := located_inside ongoing.sound isList intact means within
    have apart : ¬ (access = .insert ∧ index = world.length list) := by
      rintro ⟨-, rfl⟩
      rw [placeOf?, if_pos (by omega)] at means
      obtain rfl := Option.some.inj means
      omega
    exact located.actsAt ongoing.sound used changeable short apart
  before none access := by
    have apart : ¬ (access = .insert ∧ index = world.length list) := by
      rintro ⟨-, rfl⟩
      rw [placeOf?, if_pos (by omega)] at none
      cases none
    exact act_of_error changeable short apart (Act.position_of_before none)
  ending same := actsAt_insert isList (by rw [Act.insert_eq changeable short, if_pos same])
  strict past strict access apart := act_of_error changeable short apart (Act.position_of_strict past strict)
  lenient past lenient fits := by
    have sound := ongoing.sound
    have longer : world.length list ≤ index.toNat + 1 := by omega
    refine ⟨_, zeroFilled_grown isList longer, fun access apart => ?_⟩
    exact (located_grown sound isList changeable intact past lenient fits).actsAt sound used changeable short apart
  huge lenient huge access := by
    have past : world.length list ≤ index := by omega
    have apart : ¬ (access = .insert ∧ index = world.length list) := by
      rintro ⟨-, rfl⟩
      omega
    have grows : ¬ config.strictLists = true := by rw [lenient]; exact Bool.false_ne_true
    exact act_of_error changeable short apart (Act.position_of_long past grows (Int.lt_add_one_iff.mp huge))

/-- A list with one element, which is in use. -/
def oneElement : World :=
  let world := (runAll {} [{ action := .create (.list "l"), name := some "l" },
    { action := .list (.push (.value (.text "a"))), target := some "l" }]).2
  { world with inUse := [0] ++ world.inUse }

/-- The list replaces what it gets past its end by a copy of itself. -/
theorem index_means_one_position_past_end :
    ∃ slot after, Act.replace 0 2 0 {} oneElement = .ok slot.target after ∧ after.slots 0 = [.held 2, .held 3, slot] := by
  have ongoing : oneElement.Ongoing := .use (Reachable.ongoing (.runAll (.start {}) _)) (by decide +kernel)
  have slots : oneElement.slots 0 = [.held 2] := by decide +kernel
  have size : oneElement.heap.size = 3 := by decide +kernel
  have intact : ∀ slot ∈ oneElement.slots 0, oneElement.isLive slot.target = true := by decide +kernel
  have used : 0 ∈ oneElement.inUse := by decide +kernel
  have means : oneElement.IndexMeans 0 2 {} := index_means_one_position ongoing (by decide +kernel) used
    (by decide +kernel) (by decide +kernel) intact (by decide) {}
  have reads : Act.stop? (Act.value {} 0) oneElement = none := by decide +kernel
  have readable : ∃ value, oneElement.HasValue {} 0 value := by
    unfold Act.stop? at reads
    cases ran : Act.value {} 0 oneElement with
    | ok value after => exact ⟨value, after, ran⟩
    | error stop after =>
      rw [ran] at reads
      cases reads
  obtain ⟨value, has⟩ := readable
  obtain ⟨start, grown, acts⟩ := means.lenient (by decide +kernel) rfl (by decide)
  obtain ⟨_, slot, _, after, -, -, ran, -, placed⟩ := acts (.replace 0) nofun used value has
  refine ⟨slot, after, ran, placed.trans ?_⟩
  have counted : oneElement.length 0 = 1 := congrArg List.length slots
  rw [grown.slots, slots, counted, upcoming, size]
  rfl

end World

end Dialogue
