import Dialogue.Proofs.SessionSafety

/-! A list that grows to an index before an element is inserted there. Nothing stops the insertion before
the last position that a list may have, so the list ends up with one element more than lists may hold. -/

namespace Dialogue

/-- A new variable that is zero at the active precision. -/
def Object.zero (config : Config) : Object := { name := "", body := .var (.stored (.number (.zero config.precision))) }

namespace World

variable {world : World} {list ref : Ref} {config : Config} {count : Nat}

def addZeros (world : World) (config : Config) : Nat → World
  | 0 => world
  | count + 1 => (world.add (.zero config)).addZeros config count

/-- The identities that so many new objects get. -/
def upcoming (world : World) (count : Nat) : List Ref := List.range' world.heap.size count

/-- So many new zeros join a list at its end. -/
def grown (world : World) (list : Ref) (config : Config) (count : Nat) : World :=
  (world.addZeros config count).changeSlots list (· ++ (world.upcoming count).map .held)

private theorem upcoming_succ (object : Object) :
    world.upcoming (count + 1) = world.heap.size :: (world.add object).upcoming count := by
  rw [upcoming, upcoming, List.range'_succ, show (world.add object).heap.size = _ from Heap.size_add ..]

theorem length_upcoming : (world.upcoming count).length = count := List.length_range'

theorem size_le_of_mem_upcoming (member : ref ∈ world.upcoming count) : world.heap.size ≤ ref :=
  (List.mem_range'_1.mp member).1

theorem not_mem_upcoming (count : Nat) (old : ref < world.heap.size) : ref ∉ world.upcoming count :=
  fun member => absurd old (Nat.not_lt.mpr (size_le_of_mem_upcoming member))

theorem object?_addZeros : (world.addZeros config count).object? ref =
    if ref ∈ world.upcoming count then some (.zero config) else world.object? ref := by
  induction count generalizing world with
  | zero => rfl
  | succ count ih =>
    rw [addZeros, ih, object?_add, upcoming_succ (.zero config)]
    by_cases first : ref = world.heap.size <;> simp [first]

private theorem handles_addZeros : (world.addZeros config count).handles = world.handles := by
  induction count generalizing world with
  | zero => rfl
  | succ count ih => exact ih

theorem slots_addZeros : (world.addZeros config count).slots list = world.slots list := by
  rw [slots_eq, object?_addZeros]
  split
  next fresh => exact (slots_eq_nil_of_size_le (size_le_of_mem_upcoming fresh)).symm
  next => rw [slots_eq]

theorem kindOf_addZeros (isList : world.kindOf list = .list) : (world.addZeros config count).kindOf list = .list := by
  rwa [kindOf, object?_addZeros, if_neg (not_mem_upcoming _ (lt_size_of_isLive (isLive_of_isList isList)))]

theorem slots_grown (isList : world.kindOf list = .list) :
    (world.grown list config count).slots list = world.slots list ++ (world.upcoming count).map .held := by
  rw [grown, slots_changeSlots, if_pos ⟨rfl, kindOf_addZeros isList⟩, slots_addZeros]

end World

namespace Act

open World

variable {α β : Type} {world after : World} {list ref : Ref} {config : Config} {index size : Int}
  {freedom : Freedom}

/-- What an act comes to that does not stop. -/
def Gives (act : Act α) (world : World) (post : α → World → Prop) : Prop :=
  ∃ value after, act world = .ok value after ∧ post value after

namespace Gives

variable {act : Act α} {next : α → Act β} {mid : α → World → Prop} {post : β → World → Prop}
  {result : α → World → Prop}

theorem pure {value : α} (done : result value world) : Gives (pure value) world result := ⟨value, world, rfl, done⟩

theorem look {view : World → α} (rest : Gives (next (view world)) world post) :
    Gives (see view >>= next) world post := rest

theorem update {rule : World → World} {result : Unit → World → Prop} (done : result () (rule world)) :
    Gives (update rule) world result :=
  ⟨(), rule world, rfl, done⟩

theorem bind (first : Gives act world mid) (rest : ∀ value after, mid value after → Gives (next value) after post) :
    Gives (act >>= next) world post := by
  obtain ⟨value, middle, ran, done⟩ := first
  obtain ⟨answer, after, went, ended⟩ := rest value middle done
  exact ⟨answer, after, (bind_of_ok ran).trans went, ended⟩

theorem map {rule : α → β} (gives : Gives act world fun value after => post (rule value) after) :
    Gives (rule <$> act) world post :=
  gives.bind fun _ _ done => .pure done

theorem weaken {weaker : α → World → Prop} (gives : Gives act world result)
    (less : ∀ value after, result value after → weaker value after) : Gives act world weaker := by
  obtain ⟨value, after, ran, done⟩ := gives
  exact ⟨value, after, ran, less value after done⟩

theorem forget (gives : Gives act world result) : Gives act world fun _ _ => True :=
  gives.weaken fun _ _ _ => trivial

/-- What is safe about an act holds of what it comes to. -/
theorem of_safe (gives : Gives act world fun _ _ => True) (safe : Safe freedom act world result)
    (sound : world.Sound) : Gives act world fun value after => Follows freedom world after ∧ result value after := by
  obtain ⟨value, after, ran, -⟩ := gives
  have kept := safe sound
  rw [ran] at kept
  exact ⟨value, after, ran, kept⟩

/-- What is safe also leads to sound worlds. -/
theorem with_safe {led : α → World → Prop} (gives : Gives act world result) (sound : world.Sound)
    (safe : Safe freedom act world led) : Gives act world fun value after =>
      result value after ∧ after.Sound ∧ Follows freedom world after ∧ led value after := by
  obtain ⟨value, after, ran, done⟩ := gives
  have followed := safe.of_ok sound ran
  exact ⟨value, after, ran, done, followed.1.sound sound, followed⟩

end Gives

theorem whileBusy_ok_iff {act : Act α} {value : α} {last : World} : whileBusy list act world = .ok value last ↔
    ∃ after, act (world.setBusy list true) = .ok value after ∧ last = after.setBusy list false := by
  unfold whileBusy
  cases act (world.setBusy list true) with
  | ok found after => simp [and_assoc, eq_comm]
  | error stop after => simp

theorem holding_ok_iff {act : Act α} {refs : List Ref} {value : α} {last : World} :
    holding refs act world = .ok value last ↔
    ∃ after, act { world with inUse := refs ++ world.inUse } = .ok value after ∧ last = after.settle world.inUse := by
  unfold holding lettingGo
  rw [update_bind]
  cases act { world with inUse := refs ++ world.inUse } with
  | ok found after => simp [settle, and_assoc, eq_comm]
  | error stop after => simp

theorem holding_congr {act other : Act α} {refs : List Ref}
    (same : act { world with inUse := refs ++ world.inUse } = other { world with inUse := refs ++ world.inUse }) :
    holding refs act world = holding refs other world := by
  unfold holding lettingGo
  rw [update_bind, update_bind, same]

theorem replaceSlot_ok_iff {position : Nat} {slot : Slot} : replaceSlot list position slot world = .ok () after ↔
    ∃ previous, (world.slots list)[position]? = some previous ∧
      after = (world.changeSlots list (·.set position slot)).releaseAll previous.held?.toList := by
  unfold replaceSlot
  rw [see_bind]
  cases (world.slots list)[position]? with
  | none => exact ⟨(nomatch ·), by rintro ⟨_, ⟨⟩, -⟩⟩
  | some previous =>
    constructor
    · rintro ⟨⟩
      exact ⟨previous, rfl, rfl⟩
    · rintro ⟨_, ⟨⟩, rfl⟩
      rfl

theorem Gives.whileBusy {act : Act α} {post : α → World → Prop}
    (gives : Gives act (world.setBusy list true) fun value after => post value (after.setBusy list false)) :
    Gives (Act.whileBusy list act) world post := by
  obtain ⟨value, after, ran, done⟩ := gives
  exact ⟨value, _, whileBusy_ok_iff.mpr ⟨after, ran, rfl⟩, done⟩

theorem Gives.holding {act : Act α} {refs : List Ref} {post : α → World → Prop}
    (gives : Gives act { world with inUse := refs ++ world.inUse } fun value after => post value (after.settle world.inUse)) :
    Gives (Act.holding refs act) world post := by
  obtain ⟨value, after, ran, done⟩ := gives
  exact ⟨value, _, holding_ok_iff.mpr ⟨after, ran, rfl⟩, done⟩

theorem gives_requireChangeable (changeable : world.isConstant ref = false) :
    Gives (requireChangeable ref) world fun _ after => after = world := by
  refine .look ?_
  rw [if_neg (by rw [changeable]; exact Bool.false_ne_true)]
  exact .pure rfl

theorem requireChangeable_of_changeable (changeable : world.isConstant ref = false) :
    requireChangeable ref world = .ok () world := by
  obtain ⟨⟨⟩, after, ran, rfl⟩ := gives_requireChangeable changeable
  exact ran

theorem gives_requireRoom {extra : Nat} (room : world.length list + extra ≤ Limits.listLength) :
    Gives (requireRoom list extra) world fun _ after => after = world := by
  refine .look ?_
  dsimp only
  rw [if_neg (Nat.not_lt.mpr room)]
  exact .pure rfl

theorem requireRoom_of_short (short : world.length list < Limits.listLength) :
    requireRoom list 1 world = .ok () world := by
  have room : world.length list + 1 ≤ Limits.listLength := short
  obtain ⟨⟨⟩, after, ran, rfl⟩ := gives_requireRoom room
  exact ran

theorem demand_of_live {name : String} (live : world.isLive ref = true) : demand ref name world = .ok ref world := by
  unfold demand
  rw [see_bind, if_pos live]
  rfl

theorem demand_of_gone {name : String} (gone : world.isLive ref = false) :
    demand ref name world = .error (.ofCause (.notFound name)) world := by
  unfold demand
  rw [see_bind, if_neg (by rw [gone]; exact Bool.false_ne_true)]
  rfl

theorem element_of_live {slot : Slot} (live : world.isLive slot.target = true) :
    element slot world = .ok slot.target world := by
  rcases slot with element | ⟨target, name⟩
  · rfl
  · exact demand_of_live live

theorem gives_demand {name : String} (live : world.isLive ref = true) :
    Gives (demand ref name) world fun found after => found = ref ∧ after = world :=
  ⟨_, _, demand_of_live live, rfl, rfl⟩

theorem gives_addValue {name : String} {value : Scalar} :
    Gives (addValue name value) world fun made after =>
      made = world.heap.size ∧ after = world.add { name, body := .var (.stored value) } :=
  ⟨_, _, rfl, rfl, rfl⟩

/-- Zeros are new objects, each in a slot of its own. -/
theorem zeros_eq (config : Config) (count : Nat) (world : World) :
    zeros config count world = .ok ((world.upcoming count).map .held) (world.addZeros config count) := by
  induction count generalizing world with
  | zero => rfl
  | succ count ih =>
    have made : addValue "" (.number (.zero config.precision)) world = .ok world.heap.size (world.add (.zero config)) := rfl
    rw [zeros, bind_of_ok made, bind_of_ok (ih _), upcoming_succ (.zero config)]
    rfl

private theorem resize_of_longer (changeable : world.isConstant list = false) (longer : world.length list ≤ size)
    (fits : size ≤ Limits.listLength) :
    resize list size config world = .ok () (world.grown list config (size.toNat - world.length list)) := by
  have allowed : ¬ (size < 0 ∨ Limits.listLength < size) := by omega
  have counts : world.length list ≤ size.toNat := by omega
  unfold resize
  rw [if_neg allowed]
  change (requireChangeable list >>= _) world = _
  rw [bind_of_ok (requireChangeable_of_changeable changeable), see_bind, if_pos counts, bind_of_ok (zeros_eq config _ world)]
  rfl

theorem position_of_growth (past : world.length list ≤ index) (lenient : ¬ config.strictLists = true) :
    position list index config world = (do
      resize list (min (index + 1) (Limits.integerBound - 1)) config
      return index.toNat : Act Nat) world := by
  change (if index < 0 then _ else if index < world.length list then _ else if config.strictLists = true then _ else _ :
    Act Nat) world = _
  rw [if_neg (by omega), if_neg (by omega), if_neg lenient]

/-- A list that may grow to an index gets the zeros that it lacks. -/
theorem position_of_fitting (changeable : world.isConstant list = false) (lenient : config.strictLists = false)
    (past : world.length list ≤ index) (fits : index < Limits.listLength) : position list index config world =
      .ok index.toNat (world.grown list config (index.toNat + 1 - world.length list)) := by
  have least : min (index + 1) (Limits.integerBound - 1) = index + 1 := by
    unfold Limits.listLength Limits.integerBound at *
    omega
  have count : (index + 1).toNat = index.toNat + 1 := by omega
  have longer : resize list (index + 1) config world = _ := resize_of_longer changeable (past.trans (Int.le_add_one le_rfl)) fits
  rw [position_of_growth past (by rw [lenient]; exact Bool.false_ne_true), least, bind_of_ok longer, count]
  rfl

/-- A new zero takes a position of a list. -/
def insertZero (list : Ref) (config : Config) (position : Nat) : Act Ref := do
  let element ← addValue "" (.number (.zero config.precision))
  update (·.changeSlots list (·.insertIdx position (.held element)))
  return element

theorem insertZero_eq {position : Nat} : insertZero list config position world = .ok world.heap.size
    ((world.add (.zero config)).changeSlots list (·.insertIdx position (.held world.heap.size))) := rfl

/-- A zero takes the position of the index, unless the index is that of the end. Room is asked for before the list
grows to the position. -/
theorem insert_eq (changeable : world.isConstant list = false) (short : world.length list < Limits.listLength) :
    insert list index config world = (if index = world.length list then insertZero list config (world.length list)
      else position list index config >>= insertZero list config) world := by
  unfold insert
  rw [bind_of_ok (requireChangeable_of_changeable changeable), bind_of_ok (requireRoom_of_short short), see_bind]
  rfl

/-- A list gets so many elements; other lists and all handles stay as they are. -/
structure Grows (world : World) (list : Ref) (count : Nat) (after : World) : Prop where
  isList : after.kindOf list = .list
  length : after.length list = count
  others : ∀ other, other ≠ list → after.slots other = world.slots other
  handles : after.handles = world.handles

private theorem grows_changeSlots {rule : List Slot → List Slot} (isList : world.kindOf list = .list) :
    Grows world list (rule (world.slots list)).length (world.changeSlots list rule) where
  isList := kindOf_changeSlots.trans isList
  length := by rw [World.length, slots_changeSlots, if_pos ⟨rfl, isList⟩]
  others other apart := by rw [slots_changeSlots, if_neg fun here => apart here.1.symm]
  handles := rfl

theorem Grows.trans {middle last : World} {count total : Nat} (first : Grows world list count middle)
    (second : Grows middle list total last) : Grows world list total last where
  isList := second.isList
  length := second.length
  others other apart := (second.others other apart).trans (first.others other apart)
  handles := second.handles.trans first.handles

theorem grows_grown {size : Nat} (isList : world.kindOf list = .list) (longer : world.length list ≤ size) :
    Grows world list size (world.grown list config (size - world.length list)) := by
  have filled : Grows (world.addZeros config (size - world.length list)) list _ (world.grown list config _) :=
    grows_changeSlots (kindOf_addZeros isList)
  refine ⟨filled.isList, ?_, fun other apart => (filled.others other apart).trans slots_addZeros,
    filled.handles.trans handles_addZeros⟩
  rw [filled.length, slots_addZeros, List.length_append, List.length_map, length_upcoming]
  exact Nat.add_sub_of_le longer

private theorem gives_insertZero {position : Nat} (isList : world.kindOf list = .list)
    (inside : position ≤ world.length list) :
    Gives (insertZero list config position) world fun _ after => Grows world list (world.length list + 1) after := by
  have slots (other : Ref) : (world.add (.zero config)).slots other = world.slots other :=
    (slots_addZeros : (world.addZeros config 1).slots other = _)
  have kept : (world.add (.zero config)).kindOf list = .list :=
    (kindOf_addZeros isList : (world.addZeros config 1).kindOf list = _)
  have filled : Grows (world.add (.zero config)) list _
      ((world.add (.zero config)).changeSlots list (·.insertIdx position (.held world.heap.size))) := grows_changeSlots kept
  refine ⟨_, _, insertZero_eq, filled.isList, ?_, fun other apart => (filled.others other apart).trans (slots other), rfl⟩
  rw [filled.length, slots, List.length_insertIdx_of_le_length inside]
  rfl

theorem gives_insert (isList : world.kindOf list = .list) (overfilled : world.Overfilled list index config) :
    Gives (insert list index config) world fun _ after => Grows world list (Limits.listLength + 1) after := by
  obtain ⟨last, lenient, changeable, past⟩ := overfilled
  have found := position_of_fitting changeable lenient past.le (by omega)
  have full : index.toNat + 1 = Limits.listLength := by omega
  have grown : Grows world list (index.toNat + 1) (world.grown list config _) := grows_grown isList (by omega)
  have inside := (Nat.le_succ index.toNat).trans_eq grown.length.symm
  obtain ⟨made, after, ran, filled⟩ := gives_insertZero grown.isList inside
  rw [grown.length.trans full] at filled
  refine ⟨made, after, ?_, grown.trans filled⟩
  rw [insert_eq changeable (by omega), if_neg past.ne']
  exact (bind_of_ok found).trans ran

end Act

end Dialogue
