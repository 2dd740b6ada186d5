import Dialogue.Proofs.LifetimeSafety
import Dialogue.Proofs.ReadingSafety

/-! Lists in sound worlds. What enters a slot lives, and what is taken out of one lives on until someone
lets go of it. -/

namespace Dialogue

namespace World

variable {world : World} {list : Ref} {slot : Slot} {slots : List Slot}

/-- Whether everything lives that some slots hold, and what they refer to is or was there. -/
def Alive (world : World) (slots : List Slot) : Prop := ∀ slot ∈ slots, world.Knows slot

theorem alive_singleton : world.Alive [slot] ↔ world.Knows slot := by simp [Alive]

theorem alive_nil : world.Alive [] := fun _ impossible => by cases impossible

theorem alive_cons : world.Alive (slot :: slots) ↔ world.Alive [slot] ∧ world.Alive slots := by
  simp [Alive]

private theorem alive_append {more : List Slot} :
    world.Alive (slots ++ more) ↔ world.Alive slots ∧ world.Alive more := by
  simp only [Alive, List.mem_append, or_imp, forall_and]

theorem Sound.alive_slots (sound : world.Sound) : world.Alive (world.slots list) :=
  fun _ inside => sound.knows inside

/-- Whether a list grows to hold as many elements as lists may and then gets one more, when one is
inserted before an index. -/
structure Overfilled (world : World) (list : Ref) (index : Int) (config : Config) : Prop where
  last : index + 1 = Limits.listLength
  lenient : config.strictLists = false
  changeable : world.isConstant list = false
  past : world.length list < index

end World

namespace Act

open World

variable {world : World} {ref list object : Ref} {slots : List Slot} {slot : Slot} {config : Config}
  {freedom : Freedom}

theorem Follows.alive {after : World} [Gentler freedom .filling] (follows : Follows freedom world after)
    (alive : world.Alive slots) : after.Alive slots :=
  fun slot inside => follows.knows (alive slot inside)

theorem safe_aliasOf (old : ref < world.heap.size) :
    Safe .gentle (aliasOf ref) world fun slot after => after = world ∧ world.Knows slot :=
  .look (.pure ⟨rfl, knows_link old⟩)

theorem safe_reference (live : world.isLive ref = true) :
    Safe .gentle (reference ref) world fun slot after => after.Alive [slot] := by
  refine .look ?_
  split
  next =>
    refine (safe_aliasOf (lt_size_of_isLive live)).weaken fun slot after _ _ ⟨same, knows⟩ => ?_
    exact alive_singleton.mpr (same ▸ knows)
  next => exact .pure (alive_singleton.mpr (knows_held live))

theorem safe_zeros (count : Nat) : Safe .gentle (zeros config count) world fun slots after =>
    after.Alive slots ∧ slots.length = count := by
  induction count generalizing world with
  | zero => exact .pure ⟨alive_nil, rfl⟩
  | succ count ih =>
    apply (safe_addValue Scalar.exact_zero).bind
    intro made after _ _ live
    refine ih.bind fun slots last _ went ⟨alive, counted⟩ => .pure ?_
    have first := alive_singleton.mpr (knows_held (went.isLive live))
    exact ⟨alive_cons.mpr ⟨first, alive⟩, congrArg Nat.succ counted⟩

/-- How long a list is once its slots are others; an object of another kind has none. -/
private theorem length_changeSlots_le {rule : List Slot → List Slot} :
    (world.changeSlots list rule).length list ≤ (rule (world.slots list)).length := by
  rw [length, slots_changeSlots]
  split
  next => exact Nat.le_refl _
  next other =>
    cases found : world.slots list with
    | nil => exact Nat.zero_le _
    | cons slot rest =>
      exact absurd ⟨rfl, kindOf_eq_list_of_mem_slots (found ▸ List.mem_cons_self)⟩ other

theorem safe_extend (alive : world.Alive slots) (room : world.length list + slots.length ≤ Limits.listLength) :
    Safe .filling (extend list slots) world fun _ after => after.length list ≤ world.length list + slots.length := by
  have counted : (world.slots list ++ slots).length = world.length list + slots.length := List.length_append
  refine .with_sound fun sound => .update (follows_changeSlots sound ?_ ?_) ?_
  · exact alive_append.mpr ⟨sound.alive_slots, alive⟩
  · exact ⟨_, rfl, le_max_of_le_right (counted.trans_le room)⟩
  · exact counted ▸ length_changeSlots_le

theorem safe_truncate {length : Nat} : Safe .burying (truncate list length) world fun _ after =>
    after.length list ≤ length := by
  refine .with_sound fun sound => .look ?_
  have cuts : Follows .filling world (world.changeSlots list (·.take length)) :=
    follows_changeSlots_of_sublist sound (List.take_sublist ..)
  apply Safe.update_bind cuts
  intro after _ _ same
  refine (safe_releaseAll _).weaken fun _ last _ went _ => (went.evolves.length_le_of_releasing list).trans ?_
  subst same
  exact length_changeSlots_le.trans (List.length_take_le ..)

theorem safe_requireRoom {extra : Nat} : Safe .gentle (requireRoom list extra) world fun _ after =>
    after = world ∧ world.length list + extra ≤ Limits.listLength := by
  refine .look ?_
  dsimp only
  split
  next => exact .raise
  next room => exact .pure ⟨rfl, Nat.le_of_not_lt room⟩

theorem safe_resize {size : Int} : Safe .burying (resize list size config) world fun _ after =>
    size ≤ Limits.listLength ∧ after.length list ≤ size.toNat := by
  unfold resize
  dsimp only
  split
  next => exact .raise_bind
  next inside =>
    obtain ⟨-, fits⟩ := not_or.mp inside
    apply safe_requireChangeable.bind
    intro _ after _ _ _
    refine .look ?_
    split
    next longer =>
      apply (safe_zeros _).bind
      rintro slots middle _ began ⟨alive, counted⟩
      have kept := began.evolves.length list
      have grown : middle.length list + slots.length = size.toNat := by omega
      refine (safe_extend alive ?_).weaken fun _ _ _ _ short => ⟨Int.not_lt.mp fits, short.trans grown.le⟩
      omega
    next => exact safe_truncate.weaken fun _ _ _ _ short => ⟨Int.not_lt.mp fits, short⟩

/-- A list grows on the way only where lists are not strict, and no further than to the index. -/
theorem safe_position {index : Int} : Safe .burying (position list index config) world fun _ after =>
    after = world ∨ config.strictLists = false ∧ world.length list ≤ index ∧ index < Limits.listLength ∧
      after.length list ≤ index + 1 := by
  refine .look ?_
  split
  next =>
    split
    next => exact .pure (.inl rfl)
    next => exact .raise
  next notNegative =>
    split
    next => exact .pure (.inl rfl)
    next past =>
      split
      next => exact .raise
      next lenient =>
        refine safe_resize.bind fun _ after _ _ ⟨fits, short⟩ => .pure (.inr ⟨Bool.not_eq_true _ ▸ lenient, ?_⟩)
        simp only [Limits.integerBound, Limits.listLength] at fits short ⊢
        omega

theorem safe_elementAt {position : Nat} : Safe .gentle (elementAt list position) world fun found after =>
    after.isLive found = true := by
  refine .with_sound fun sound => .look ?_
  split
  next slot found =>
    apply safe_element.weaken
    rintro found after _ _ ⟨same, live⟩
    rw [same]
    exact live (sound.knows (List.mem_of_getElem? ‹_›))
  next => exact .raise

theorem safe_get {index : Int} : Safe .burying (get list index config) world fun found after =>
    after.isLive found = true :=
  safe_position.bind fun _ _ _ _ _ => safe_elementAt.relax

theorem safe_pushItself (live : world.isLive object = true) :
    Safe .filling (pushItself list object) world fun _ _ => True := by
  apply safe_requireChangeable.bind
  rintro _ after _ _ ⟨rfl, -⟩
  apply safe_requireRoom.bind
  rintro _ after _ _ ⟨rfl, room⟩
  split
  next =>
    refine (safe_aliasOf (lt_size_of_isLive live)).bind fun slot last _ _ ⟨same, knows⟩ => ?_
    subst same
    exact (safe_extend (alive_singleton.mpr knows) room).forget
  next => exact (safe_extend (alive_singleton.mpr (knows_held live)) room).forget

theorem safe_pushAlias (old : object < world.heap.size) :
    Safe .filling (pushAlias list object) world fun _ _ => True := by
  apply safe_requireChangeable.bind
  rintro _ middle _ _ ⟨rfl, -⟩
  apply safe_requireRoom.bind
  rintro _ after _ _ ⟨rfl, room⟩
  refine (safe_aliasOf old).bind fun slot last _ _ ⟨same, knows⟩ => ?_
  subst same
  exact (safe_extend (alive_singleton.mpr knows) room).forget

theorem safe_appendThemselves {other : Ref} : Safe .filling (appendThemselves list other) world fun _ _ => True := by
  apply safe_requireChangeable.bind
  intro _ after sound _ _
  refine .look ?_
  apply safe_requireRoom.bind
  rintro _ last _ _ ⟨rfl, room⟩
  exact (safe_extend sound.alive_slots room).forget

theorem safe_pop : Safe .filling (pop list) world fun found after => after.isLive found = true := by
  apply safe_requireChangeable.bind
  intro _ after sound _ _
  refine .look ?_
  split
  next => exact .raise
  next slot last =>
    have cuts : Follows .filling after (after.changeSlots list (·.dropLast)) :=
      follows_changeSlots_of_sublist sound (List.dropLast_sublist _)
    apply Safe.update_bind cuts
    intro middle _ went _
    refine safe_element.weaken fun found final _ _ ⟨same, live⟩ => same ▸ live ?_
    exact went.knows (sound.knows (List.mem_of_getLast? last))

theorem safe_remove {index : Int} : Safe .burying (remove list index config) world fun found after =>
    after.isLive found = true := by
  apply safe_requireChangeable.bind
  intro _ _ _ _ _
  apply safe_position.bind
  intro position after sound _ _
  refine .look ?_
  split
  next => exact .throw
  next slot found =>
    have cuts : Follows .filling after (after.changeSlots list (·.eraseIdx position)) :=
      follows_changeSlots_of_sublist sound (List.eraseIdx_sublist ..)
    apply Safe.update_bind cuts
    intro middle _ went _
    refine safe_element.weaken fun found final _ _ ⟨same, live⟩ => same ▸ live ?_
    exact went.knows (sound.knows (List.mem_of_getElem? ‹_›))

/-- The room for one more element is measured before the list grows to the index. -/
theorem safe_insert [gentler : Gentler .burying freedom] {index : Int}
    (free : world.Overfilled list index config → freedom = .overfilling) :
    Safe freedom (insert list index config) world fun made after => after.isLive made = true := by
  have placed {world : World} (position : Nat) (fills : freedom.Fills (world.length list + 1) (world.length list)) :
      Safe freedom (do
        let element ← addValue "" (.number (.zero config.precision))
        update (·.changeSlots list (·.insertIdx position (.held element)))
        return element) world fun made after => after.isLive made = true := by
    apply (safe_addValue Scalar.exact_zero).bind
    intro made after sound began live
    have kept := began.evolves.length list
    have puts : Follows freedom after (after.changeSlots list (·.insertIdx position (.held made))) := by
      apply follows_changeSlots sound
      · intro slot inside
        rcases List.eq_or_mem_of_mem_insertIdx inside with rfl | before
        · exact knows_held live
        · exact sound.knows before
      · obtain ⟨room, roomy, fits⟩ := fills
        rw [← kept] at fits
        exact ⟨room, roomy, (List.length_insertIdx_le_succ ..).trans fits⟩
    exact Safe.update_bind puts fun _ _ _ same => .pure (same ▸ isLive_change.trans live)
  apply safe_requireChangeable.bind
  rintro _ after _ _ ⟨rfl, changeable⟩
  apply safe_requireRoom.bind
  rintro _ after _ _ ⟨rfl, room⟩
  have spacious : freedom.Fills (after.length list + 1) (after.length list) :=
    gentler.fills ⟨_, rfl, le_max_of_le_right room⟩
  refine .look ?_
  dsimp only
  split
  next => exact placed _ spacious
  next other =>
    refine safe_position.bind fun position last _ _ grown => placed position ?_
    rcases grown with rfl | ⟨lenient, past, inside, short⟩
    · exact spacious
    -- The room that was asked for says nothing about a list that has grown since.
    · by_cases full : index + 1 = Limits.listLength
      · rw [free ⟨full, lenient, changeable, by omega⟩]
        exact ⟨_, rfl, by omega⟩
      · exact gentler.fills ⟨_, rfl, le_max_of_le_right (by omega)⟩

/-- What enters a slot stays, because the list holds it when the old element goes. -/
theorem safe_replaceSlot {position : Nat} (used : list ∈ world.inUse) (alive : world.Alive [slot]) :
    Safe .burying (replaceSlot list position slot) world fun _ after => after.Alive [slot] := by
  refine .with_sound fun sound => .look ?_
  split
  next => exact .throw
  next previous found =>
    have inside := List.mem_of_getElem? found
    have puts : Follows .filling world (world.changeSlots list (·.set position slot)) := by
      apply follows_changeSlots sound
      · intro other placed
        rcases List.mem_or_eq_of_mem_set placed with before | same
        · exact sound.knows before
        · exact same ▸ alive_singleton.mp alive
      · exact Freedom.fills_of_le List.length_set.le rfl
    apply Safe.update_bind puts
    intro after soundAfter began same
    refine (safe_releaseAll _).weaken fun _ last soundLast went ended => alive_singleton.mpr ?_
    have placed : slot ∈ after.slots list := by
      rw [same, slots_changeSlots, if_pos ⟨rfl, kindOf_eq_list_of_mem_slots inside⟩]
      exact List.mem_set (List.getElem?_eq_some_iff.mp found).1 slot
    have lives := soundLast.inUse (went.mem_inUse (began.mem_inUse used))
    have stays := went.evolves.slots_of_isLive (lt_size_of_isLive (soundAfter.inUse (began.mem_inUse used))) lives
    exact soundLast.knows (stays ▸ placed)

theorem safe_lengthVariable (old : list < world.heap.size) :
    Safe .gentle (lengthVariable list) world fun made after => after.isLive made = true :=
  .look (safe_addEmptyVariable rfl (fun _ same => Option.some.inj same ▸ old) rfl)

end Act

end Dialogue
