import Dialogue.Proofs.AssignmentBounds
import Dialogue.Proofs.FrozenAssignments
import Dialogue.Proofs.ValuesInTurn
import Dialogue.Proofs.WriteBack

/-! Values that a list takes over by an assignment. The variables of the destination are written one after the other,
and each variable of the source is read when its turn comes: the destination gets the values that the source had at
the start just if no variable of the source shows another value once those before it have been written. -/

namespace Dialogue

namespace Act

open World

variable {world after last : World} {list target source : Ref} {config : Config} {nested : Ref → Ref → Act Unit}
  {position : Nat} {region : Ref → Prop}

/-- What a slot of the destination and one of the source are for an assignment that only writes variables. -/
structure Overwrites (region : Ref → Prop) (world : World) (current given : Slot) : Prop where
  stored : ∃ value, world.storage? current.target = some (.stored value)
  changeable : world.isConstant current.target = false
  isVar : world.kindOf given.target = .var
  within : region given.target
  held : world.isHeld current.target = true ∧ world.isHeld given.target = true

variable {current given : Slot}

/-- A variable that is not constant takes the value of another one. -/
private theorem assignElement_of_vars (there : (world.slots list)[position]? = some current)
    (live : world.isLive current.target = true)
    (isVar : world.kindOf current.target = .var) (changeable : world.isConstant current.target = false)
    (also : world.kindOf source = .var) :
    assignElement nested list position source config world =
      holding [current.target] (assignFrom current.target source config) world := by
  rw [assignElement_of_live there live]
  refine holding_congr ?_
  have kinds : World.kindOf { world with inUse := [current.target] ++ world.inUse } current.target = .var ∧
      World.kindOf { world with inUse := [current.target] ++ world.inUse } source = .var := ⟨isVar, also⟩
  have free : World.isConstant { world with inUse := [current.target] ++ world.inUse } current.target = false := changeable
  generalize ({ world with inUse := [current.target] ++ world.inUse } : World) = before at kinds free ⊢
  unfold assignInPlace
  rw [see_bind, kinds.1, see_bind, kinds.2]
  dsimp only
  rw [see_bind, free]
  rfl

namespace Overwrites

theorem isLive (overwrites : Overwrites region world current given) : world.isLive current.target = true := by
  obtain ⟨value, found⟩ := overwrites.stored
  exact isLive_of_content? (content?_eq_some_var.mpr found)

private theorem isLive_given (overwrites : Overwrites region world current given) :
    world.isLive given.target = true := by
  have isVar := overwrites.isVar
  rw [kindOf] at isVar
  rw [World.isLive]
  cases found : world.object? given.target with
  | none => simp [found] at isVar
  | some object => rfl

/-- What is read and written lives on when it is let go of, as others hold it. -/
private theorem settle_setStorage (overwrites : Overwrites region world current given) {value : Scalar}
    (still : Undisturbed { world with inUse := current.target :: given.target :: world.inUse } after) :
    ((after.setStorage current.target (.stored value)).settle (given.target :: world.inUse)).settle world.inUse =
      { after.setStorage current.target (.stored value) with inUse := world.inUse } := by
  obtain ⟨former, found⟩ := overwrites.stored
  have kept : after.storage? current.target = some (.stored former) :=
    (Undisturbed.storage?_eq_some still (by rintro _ _ ⟨⟩)).mpr found
  have holds (holder : Ref) : (after.setStorage current.target (.stored value)).holdsOf holder = world.holdsOf holder :=
    (holdsOf_setStorage kept).trans still.holdsOf
  have handles : after.handles = world.handles := by rw [still.rest]
  have used : after.inUse = current.target :: given.target :: world.inUse := by rw [still.rest]
  have held (ref : Ref) (member : ref = current.target ∨ ref = given.target ∨ ref ∈ world.inUse) :
      world.isHeld ref = true := by
    rcases member with rfl | rfl | used
    · exact overwrites.held.1
    · exact overwrites.held.2
    · exact isHeld_iff.mpr (.inl used)
  have first : (after.setStorage current.target (.stored value)).settle (given.target :: world.inUse) =
      { after.setStorage current.target (.stored value) with inUse := given.target :: world.inUse } := by
    refine settle_of_held fun ref member => isHeld_mono (List.subset_cons_self ..) handles holds (held ref ?_)
    exact by simpa using (show ref ∈ current.target :: given.target :: world.inUse from used ▸ member)
  rw [first]
  refine settle_of_held fun ref member => isHeld_mono (List.Subset.refl world.inUse) handles holds (held ref ?_)
  exact .inr (List.mem_cons.mp member)

end Overwrites

/-- One variable is read and another one written, and nothing else changes. -/
private theorem assignSlot_ok_iff (ordered : world.Ordered) (there : (world.slots list)[position]? = some current)
    (overwrites : Overwrites region world current given) :
    assignSlot nested list config position given world = .ok () last ↔
      ∃ value after, Act.value config given.target
        { world with inUse := current.target :: given.target :: world.inUse } = .ok value after ∧
        last = { after.setStorage current.target (.stored value) with inUse := world.inUse } := by
  obtain ⟨former, found⟩ := overwrites.stored
  have isVar : world.kindOf current.target = .var := kindOf_of_storage? found
  have assigns : assignElement nested list position given.target config { world with inUse := [given.target] ++ world.inUse } =
      holding [current.target] (assignFrom current.target given.target config)
        { world with inUse := [given.target] ++ world.inUse } :=
    assignElement_of_vars there overwrites.isLive isVar overwrites.changeable overwrites.isVar
  have writes (last : World) : assignFrom current.target given.target config
        { world with inUse := current.target :: given.target :: world.inUse } = .ok () last ↔ ∃ value after,
      Act.value config given.target { world with inUse := current.target :: given.target :: world.inUse } =
        .ok value after ∧ last = after.setStorage current.target (.stored value) :=
    assignFrom_ok_iff ordered overwrites.stored overwrites.changeable
  have reads : Meets quiet (Act.value config given.target)
      { world with inUse := current.target :: given.target :: world.inUse } fun _ _ => True := meets_value ordered
  unfold assignSlot
  rw [see_bind, if_pos overwrites.isLive_given, holding_ok_iff, assigns]
  simp only [holding_ok_iff, List.singleton_append, writes]
  constructor
  · rintro ⟨_, ⟨_, ⟨value, after, ran, rfl⟩, rfl⟩, rfl⟩
    exact ⟨value, after, ran, overwrites.settle_setStorage (reads.of_ok ran).1⟩
  · rintro ⟨value, after, ran, rfl⟩
    exact ⟨_, ⟨_, ⟨value, after, ran, rfl⟩, rfl⟩, (overwrites.settle_setStorage (reads.of_ok ran).1).symm⟩

namespace Overwrites

theorem undisturbed (overwrites : Overwrites region world current given) (still : world.Undisturbed after) :
    Overwrites region after current given where
  stored := by
    obtain ⟨value, found⟩ := overwrites.stored
    exact ⟨value, (still.storage?_eq_some (by rintro _ _ ⟨⟩)).mpr found⟩
  changeable := by
    rw [isConstant_eq, still.marks?, ← isConstant_eq]
    exact overwrites.changeable
  isVar := by
    rw [kindOf_eq, still.shape?, ← kindOf_eq]
    exact overwrites.isVar
  within := overwrites.within
  held := by
    have handles : after.handles = world.handles := by rw [still.rest]
    have used : world.inUse ⊆ after.inUse := by rw [still.rest]; exact List.Subset.refl _
    exact ⟨isHeld_mono used handles (fun _ => still.holdsOf) overwrites.held.1,
      isHeld_mono used handles (fun _ => still.holdsOf) overwrites.held.2⟩

theorem setStorage {value : Scalar} (overwrites : Overwrites region world current given)
    (stored : ∃ former, world.storage? target = some (.stored former)) :
    Overwrites region (world.setStorage target (.stored value)) current given where
  stored := by
    obtain ⟨former, found⟩ := overwrites.stored
    rw [storage?_setStorage, found]
    split
    · exact ⟨value, rfl⟩
    · exact ⟨former, rfl⟩
  changeable := by
    rw [isConstant_eq, marks?_setStorage, ← isConstant_eq]
    exact overwrites.changeable
  isVar := by
    rw [kindOf_eq, shape?_setStorage, ← kindOf_eq]
    exact overwrites.isVar
  within := overwrites.within
  held := by
    obtain ⟨former, found⟩ := stored
    have holds (holder : Ref) : (world.setStorage target (.stored value)).holdsOf holder = world.holdsOf holder :=
      holdsOf_setStorage found
    exact ⟨isHeld_mono (List.Subset.refl world.inUse) rfl holds overwrites.held.1,
      isHeld_mono (List.Subset.refl world.inUse) rfl holds overwrites.held.2⟩

end Overwrites

/-- What one slot of the source shows is written to the one of the destination, and nothing else changes. -/
private theorem assignSlot_in_turn {base : World} (twins : Twins config region base world) (ordered : base.Ordered)
    (legible : Legible config region base) (there : (base.slots list)[position]? = some current)
    (overwrites : Overwrites region base current given) :
    (∀ last, assignSlot nested list config position given world = .ok () last → ∃ value,
      base.HasValue config given.target value ∧
        Twins config region (base.setStorage current.target (.stored value)) last) ∧
    ∀ value, base.HasValue config given.target value → ∃ last,
      assignSlot nested list config position given world = .ok () last ∧
        Twins config region (base.setStorage current.target (.stored value)) last := by
  have still := twins.undisturbed
  have used : world.inUse = base.inUse := by rw [still.rest]
  have slot : (world.slots list)[position]? = some current := by rw [still.slots]; exact there
  have writes (last : World) : assignSlot nested list config position given world = .ok () last ↔ _ :=
    assignSlot_ok_iff (still.ordered ordered) slot (overwrites.undisturbed still)
  have around : Twins config region { base with inUse := current.target :: given.target :: base.inUse }
      { world with inUse := current.target :: given.target :: world.inUse } := used ▸ twins.withInUse
  have readable : Legible config region { base with inUse := current.target :: given.target :: base.inUse } :=
    ⟨legible.slots, legible.shown, legible.pure⟩
  have alike : Mirrors config region base { base with inUse := current.target :: given.target :: base.inUse } :=
    mirrors_of_bodies rfl rfl (fun _ => rfl) (fun _ => rfl) fun _ _ => rfl
  have back : Mirrors config region { base with inUse := current.target :: given.target :: base.inUse } base :=
    mirrors_of_bodies rfl rfl (fun _ => rfl) (fun _ => rfl) fun _ _ => rfl
  have written {value : Scalar} {after : World}
      (same : Twins config region { base with inUse := current.target :: given.target :: base.inUse } after) :
      Twins config region (base.setStorage current.target (.stored value))
        { after.setStorage current.target (.stored value) with inUse := world.inUse } :=
    used ▸ same.setStorage.withInUse
  constructor
  · intro last went
    obtain ⟨value, after, ran, rfl⟩ := (writes last).mp went
    obtain ⟨has, same⟩ := around.read ordered readable overwrites.within ran
    exact ⟨value, has.mirrors overwrites.within readable back ordered, written same⟩
  · intro value has
    obtain ⟨after, ran⟩ := (has.mirrors overwrites.within legible alike ordered).mirrors overwrites.within readable
      around.forth (around.undisturbed.ordered ordered)
    obtain ⟨-, same⟩ := around.read ordered readable overwrites.within ran
    exact ⟨_, (writes _).mpr ⟨value, after, ran, rfl⟩, written same⟩

/-- The overlap is assigned by reading and writing in turn. -/
private theorem assignOverlap_in_turn {base : World} {currents givens : List Slot}
    (overwrites : List.Forall₂ (Overwrites region base) currents givens) (twins : Twins config region base world)
    (ordered : base.Ordered) (legible : Legible config region base) (there : (base.slots list).drop position = currents) :
    (∀ last, assignOverlap nested list config position givens world = .ok () last → ∃ values,
      base.ReadInTurn config currents givens values ∧ Twins config region (base.storeAll currents values) last) ∧
    ∀ values, base.ReadInTurn config currents givens values → ∃ last,
      assignOverlap nested list config position givens world = .ok () last ∧
        Twins config region (base.storeAll currents values) last := by
  induction givens generalizing world base position currents with
  | nil =>
    cases overwrites
    constructor
    · rintro last ⟨⟩
      exact ⟨[], .nil, twins⟩
    · rintro values ⟨⟩
      exact ⟨world, rfl, twins⟩
  | cons given others ih =>
    rcases overwrites with _ | @⟨current, _, rest, _, here, later⟩
    have slot : (base.slots list)[position]? = some current := by
      rw [← List.head?_drop, there, List.head?_cons]
    obtain ⟨reads, writes⟩ : _ ∧ ∀ value, _ → ∃ last, assignSlot nested list config position given world = _ ∧ _ :=
      assignSlot_in_turn twins ordered legible slot here
    have dropped (value : Scalar) : ((base.setStorage current.target (.stored value)).slots list).drop (position + 1) = rest := by
      rw [slots_setStorage, ← List.tail_drop, there, List.tail_cons]
    have next (value : Scalar) {after : World}
        (same : Twins config region (base.setStorage current.target (.stored value)) after) :=
      ih (later.imp fun _ _ overwrites => overwrites.setStorage here.stored) same (Ordered.setStorage ordered)
        (Legible.setStorage legible) (dropped value)
    rw [assignOverlap_cons]
    constructor
    · intro last went
      obtain ⟨⟨⟩, after, ran, ended⟩ := bind_ok_iff.mp went
      obtain ⟨value, shows, same⟩ := reads after ran
      obtain ⟨values, rest, done⟩ := (next value same).1 last ended
      exact ⟨value :: values, .cons shows rest, done⟩
    · rintro _ (_ | @⟨_, _, _, value, _, _, values, shows, rest⟩)
      obtain ⟨after, ran, same⟩ := writes value shows
      obtain ⟨last, ended, done⟩ := (next value same).2 values rest
      exact ⟨last, bind_ok_iff.mpr ⟨⟨⟩, after, ran, ended⟩, done⟩

/-- Where both lists have as many elements, nothing is left to be done. -/
private theorem assignRest_nil (length : world.length list = position) :
    assignRest list position [] config world = .ok () world := by
  have count : (world.slots list).length ≤ position := length.le
  have cut : truncate list position world = .ok () world := by
    change EStateM.Result.ok ()
      ((world.changeSlots list (·.take position)).releaseAll (((world.slots list).drop position).filterMap Slot.held?)) = _
    rw [changeSlots_eq_self (List.take_of_length_le count), List.drop_of_length_le count]
    rfl
  change (do
    if world.length list < position then throw (.fault .missingSlot)
    truncate list position : Act Unit) world = _
  rw [if_neg length.ge.not_gt]
  exact cut

namespace Overwrites

theorem setBusy {busy : Bool} (overwrites : Overwrites region world current given) :
    Overwrites region (world.setBusy list busy) current given where
  stored := by
    rw [World.setBusy, storage?_changeList]
    exact overwrites.stored
  changeable := (isConstant_setBusy).trans overwrites.changeable
  isVar := kindOf_setBusy.trans overwrites.isVar
  within := overwrites.within
  held := ⟨isHeld_mono (List.Subset.refl world.inUse) rfl (fun _ => holdsOf_setBusy) overwrites.held.1,
    isHeld_mono (List.Subset.refl world.inUse) rfl (fun _ => holdsOf_setBusy) overwrites.held.2⟩

theorem withInUse {inUse : List Ref} (overwrites : Overwrites region world current given) (more : world.inUse ⊆ inUse) :
    Overwrites region { world with inUse } current given :=
  { overwrites with held := ⟨isHeld_mono more rfl (fun _ => rfl) overwrites.held.1,
      isHeld_mono more rfl (fun _ => rfl) overwrites.held.2⟩ }

theorem beginAssignment (overwrites : Overwrites region world current given) :
    Overwrites region (world.beginAssignment list source) current given :=
  (overwrites.withInUse (List.subset_append_right _ world.inUse)).setBusy

end Overwrites

private theorem slots_beginAssignment {ref : Ref} :
    (world.beginAssignment list source).slots ref = world.slots ref := slots_setBusy

private theorem legible_beginAssignment (legible : Legible config region world) :
    Legible config region (world.beginAssignment list source) :=
  Legible.setBusy ⟨legible.slots, legible.shown, legible.pure⟩

private theorem ordered_beginAssignment (ordered : world.Ordered) :
    (world.beginAssignment list source).Ordered := ordered.setBusy

/-- The elements of a list are assigned those of the source by reading and writing in turn. -/
theorem assigned_in_turn (ordered : world.Ordered) (legible : Legible config region world)
    (overwrites : List.Forall₂ (Overwrites region world) (world.slots list) (world.slots source)) :
    (∀ after, assignOverlap nested list config 0 (world.slots source) (world.beginAssignment list source) = .ok () after →
      ∃ values, (world.beginAssignment list source).ReadInTurn config (world.slots list) (world.slots source) values ∧
        Twins config region ((world.beginAssignment list source).storeAll (world.slots list) values) after) ∧
    ∀ values, (world.beginAssignment list source).ReadInTurn config (world.slots list) (world.slots source) values → ∃ after,
      assignOverlap nested list config 0 (world.slots source) (world.beginAssignment list source) = .ok () after ∧
        Twins config region ((world.beginAssignment list source).storeAll (world.slots list) values) after :=
  assignOverlap_in_turn (overwrites.imp fun _ _ overwrites => overwrites.beginAssignment) .refl
    (ordered_beginAssignment ordered) (legible_beginAssignment legible) slots_beginAssignment

/-- Each value is stored where one was stored before. -/
private theorem overwrites_storeAll {currents givens others : List Slot} {values : List Scalar}
    (overwrites : List.Forall₂ (Overwrites region world) currents givens)
    (stored : ∀ slot ∈ others, ∃ former, world.storage? slot.target = some (.stored former)) :
    List.Forall₂ (Overwrites region (world.storeAll others values)) currents givens := by
  induction others generalizing world values with
  | nil => exact overwrites
  | cons first rest ih =>
    cases values with
    | nil => exact overwrites
    | cons value values =>
      obtain ⟨here, later⟩ := List.forall_mem_cons.mp stored
      refine ih (overwrites.imp fun _ _ overwrites => overwrites.setStorage here) fun slot inside => ?_
      obtain ⟨former, found⟩ := later slot inside
      rw [storage?_setStorage, found]
      split
      · exact ⟨value, rfl⟩
      · exact ⟨former, rfl⟩

theorem stored_of_overwrites {currents givens : List Slot}
    (overwrites : List.Forall₂ (Overwrites region world) currents givens) :
    ∀ slot ∈ currents, ∃ former, world.storage? slot.target = some (.stored former) :=
  ((List.forall₂_and_left _ _).mp (overwrites.imp fun _ _ overwrites => ⟨overwrites.stored, overwrites⟩)).1

theorem given_of_overwrites {currents givens : List Slot}
    (overwrites : List.Forall₂ (Overwrites region world) currents givens) :
    ∀ slot ∈ givens, region slot.target ∧ world.isHeld slot.target = true := by
  induction overwrites with
  | nil => exact List.forall_mem_nil _
  | cons here _ ih => exact List.forall_mem_cons.mpr ⟨⟨here.within, here.held.2⟩, ih⟩

/-- When every value is stored, the elements of both lists are held as they were, and nothing is released. -/
private theorem settle_storeAll {values : List Scalar}
    (overwrites : List.Forall₂ (Overwrites region world) (world.slots list) (world.slots source))
    (twins : Twins config region ((world.beginAssignment list source).storeAll (world.slots list) values) after) :
    (after.setBusy list false).settle world.inUse = { after.setBusy list false with inUse := world.inUse } := by
  have begun : world.beginAssignment list source =
      { world.setBusy list true with inUse := (world.slots source).filterMap Slot.held? ++ world.inUse } := rfl
  rw [begun, storeAll_withInUse] at twins
  have still := twins.undisturbed
  have busy : List.Forall₂ (Overwrites region (world.setBusy list true)) (world.slots list) (world.slots source) :=
    overwrites.imp fun _ _ overwrites => overwrites.setBusy
  have stays : List.Forall₂ (Overwrites region ((world.setBusy list true).storeAll (world.slots list) values)) _ _ :=
    overwrites_storeAll busy (stored_of_overwrites busy)
  have handles : after.handles = ((world.setBusy list true).storeAll (world.slots list) values).handles := by
    rw [still.rest]
  have used : ((world.setBusy list true).storeAll (world.slots list) values).inUse = world.inUse :=
    storeAll_keeps (·.inUse) fun _ _ _ => rfl
  have lives {ref : Ref} (held : ((world.setBusy list true).storeAll (world.slots list) values).isHeld ref = true) :
      World.isHeld { after.setBusy list false with inUse := world.inUse } ref = true :=
    isHeld_mono (used.symm ▸ List.Subset.refl _) handles (fun _ => holdsOf_setBusy.trans still.holdsOf) held
  have inUse : after.inUse = (world.slots source).filterMap Slot.held? ++ world.inUse := by rw [still.rest]
  refine settle_of_held fun ref member => ?_
  rcases List.mem_append.mp (inUse ▸ show ref ∈ after.inUse from member) with element | kept
  · obtain ⟨slot, inside, holds⟩ := List.mem_filterMap.mp element
    have target : slot.target = ref := by
      cases slot with
      | held element => exact Option.some.inj holds
      | link => cases holds
    exact lives (target ▸ (given_of_overwrites stays slot inside).2)
  · exact lives (isHeld_iff.mpr (.inl (used ▸ kept)))

/-- Of two lists that stay as long as each other nothing but the overlap is assigned. -/
private theorem assignSlots_of_length {base : World} {slots : List Slot} (length : base.length list = slots.length)
    (keeps : ∀ between, assignOverlap nested list config 0 slots base = .ok () between →
      between.length list = slots.length) :
    assignSlots nested list config slots base = .ok () after ↔
      assignOverlap nested list config 0 slots base = .ok () after := by
  have finishes (between : World) (ran : assignOverlap nested list config 0 slots base = .ok () between) :
      (do unless ← see (·.isConstant list) do assignRest list slots.length [] config : Act Unit) between =
        .ok () between := by
    rw [see_bind]
    cases between.isConstant list with
    | true => rfl
    | false =>
      change assignRest list slots.length [] config between = _
      exact assignRest_nil (keeps between ran)
  unfold assignSlots
  rw [see_bind, length, Nat.min_self, List.take_length, List.drop_length, bind_ok_iff]
  constructor
  · rintro ⟨⟨⟩, between, ran, ended⟩
    obtain ⟨-, rfl⟩ := EStateM.Result.ok.inj ((finishes between ran).symm.trans ended)
    exact ran
  · exact fun ran => ⟨⟨⟩, after, ran, finishes after ran⟩

/-- What the overlap leaves is the world that is left: nothing else is assigned, and what was held lives on. -/
private theorem assignListWith_ok_iff (apart : list ≠ source) (idle : world.isBusy list = false)
    (ordered : world.Ordered)
    (legible : Legible config region world)
    (overwrites : List.Forall₂ (Overwrites region world) (world.slots list) (world.slots source)) :
    assignListWith nested config list source world = .ok () last ↔ ∃ after,
      assignOverlap nested list config 0 (world.slots source) (world.beginAssignment list source) = .ok () after ∧
      last = { after.setBusy list false with inUse := world.inUse } := by
  -- Wherever the overlap leads, it only changes values that are stored.
  have leads (after : World)
      (ran : assignOverlap nested list config 0 (world.slots source) (world.beginAssignment list source) = .ok () after) :
      ∃ values, Twins config region ((world.beginAssignment list source).storeAll (world.slots list) values) after := by
    obtain ⟨values, -, same⟩ := (assigned_in_turn ordered legible overwrites).1 after ran
    exact ⟨values, same⟩
  have length : (world.beginAssignment list source).length list = (world.slots source).length := by
    rw [World.length, slots_beginAssignment, overwrites.length_eq]
  have keeps (after : World)
      (ran : assignOverlap nested list config 0 (world.slots source) (world.beginAssignment list source) = .ok () after) :
      after.length list = (world.slots source).length := by
    obtain ⟨values, same⟩ := leads after ran
    rw [World.length, same.undisturbed.slots, slots_storeAll]
    exact length
  have settled (after : World)
      (ran : assignOverlap nested list config 0 (world.slots source) (world.beginAssignment list source) = .ok () after) :
      (after.setBusy list false).settle world.inUse = { after.setBusy list false with inUse := world.inUse } := by
    obtain ⟨values, same⟩ := leads after ran
    exact settle_storeAll overwrites same
  rw [assignListWith_eq, see_bind, if_neg (by simp [apart, idle]), see_bind, holding_ok_iff]
  simp only [whileBusy_ok_iff]
  constructor
  · rintro ⟨_, ⟨after, ran, rfl⟩, rfl⟩
    have ran := (assignSlots_of_length length keeps).mp ran
    exact ⟨after, ran, settled after ran⟩
  · rintro ⟨after, ran, rfl⟩
    exact ⟨_, ⟨after, (assignSlots_of_length length keeps).mpr ran, rfl⟩, (settled after ran).symm⟩

private theorem assignListWith_self : assignListWith nested config list list world = .ok () world := by
  rw [assignListWith_eq, see_bind, if_pos (.inl rfl)]
  rfl

end Act

namespace World

open Act

variable {world : World} {list source : Ref} {region : Ref → Prop} {values : List Scalar} {config : Config}

/-- Whether an assignment succeeds and leaves given values in the destination. -/
def TakesOver (config : Config) (world : World) (list source : Ref) (values : List Scalar) : Prop :=
  ∃ after, assignList list source config world = .ok () after ∧
    List.Forall₂ (fun slot value => after.storage? slot.target = some (.stored value)) (world.slots list) values

/-- Values are taken over by reading and writing in turn. -/
private theorem takesOver_iff_readInTurn (ordered : world.Ordered) (idle : world.isBusy list = false)
    (distinct : ((world.slots list).map Slot.target).Nodup) (legible : Legible config region world)
    (overwrites : List.Forall₂ (Overwrites region world) (world.slots list) (world.slots source)) :
    world.TakesOver config list source values ↔
      (world.setBusy list true).ReadInTurn config (world.slots list) (world.slots source) values := by
  obtain ⟨fuel, enough⟩ : ∃ fuel, world.assignmentFuel = fuel + 1 :=
    Nat.exists_eq_succ_of_ne_zero (Nat.add_pos_right _ (Nat.pow_pos (by decide))).ne'
  have runs : assignList list source config world = assignListWith (assignListWithin fuel config) config list source world := by
    unfold assignList
    rw [see_bind, enough]
    rfl
  unfold TakesOver
  rw [runs]
  by_cases self : list = source
  · subst self
    have stored := stored_of_overwrites overwrites
    rw [readInTurn_self distinct fun slot inside => by rw [setBusy, storage?_changeList]; exact stored slot inside]
    simp only [setBusy, storage?_changeList]
    refine ⟨?_, fun all => ⟨_, assignListWith_self, all⟩⟩
    rintro ⟨after, ran, all⟩
    exact (EStateM.Result.ok.inj (assignListWith_self.symm.trans ran)).2 ▸ all
  · have begun : List.Forall₂ (Overwrites region (world.beginAssignment list source)) (world.slots list) (world.slots source) :=
      overwrites.imp fun _ _ overwrites => overwrites.beginAssignment
    have within : ∀ slot ∈ world.slots source, region slot.target := fun slot inside =>
      (given_of_overwrites overwrites slot inside).1
    have ends (values : List Scalar) (after : World)
        (reads : (world.beginAssignment list source).ReadInTurn config (world.slots list) (world.slots source) values)
        (same : Twins config region ((world.beginAssignment list source).storeAll (world.slots list) values) after) :
        List.Forall₂ (fun slot value => after.storage? slot.target = some (.stored value)) (world.slots list) values :=
      (storage?_storeAll reads.length distinct (stored_of_overwrites begun)).imp fun _ _ found =>
        (same.undisturbed.storage?_eq_some (by rintro _ _ ⟨⟩)).mpr found
    constructor
    · rintro ⟨last, ran, all⟩
      obtain ⟨after, assigned, rfl⟩ := (assignListWith_ok_iff self idle ordered legible overwrites).mp ran
      obtain ⟨read, reads, same⟩ := (assigned_in_turn ordered legible overwrites).1 after assigned
      have all : List.Forall₂ (fun slot value => after.storage? slot.target = some (.stored value)) (world.slots list) values :=
        all.imp fun _ _ found => storage?_changeList.symm.trans found
      obtain rfl : read = values := by
        refine List.right_unique_forall₂' (fun _ _ _ first second => ?_) (ends read after reads same) all
        exact Storage.stored.inj (Option.some.inj (first.symm.trans second))
      exact readInTurn_withInUse reads within (legible_beginAssignment legible) (ordered_beginAssignment ordered)
    · intro reads
      have reads : (world.beginAssignment list source).ReadInTurn config (world.slots list) (world.slots source) values :=
        readInTurn_withInUse reads within legible.setBusy (Ordered.setBusy ordered)
      obtain ⟨after, ran, same⟩ := (assigned_in_turn ordered legible overwrites).2 values reads
      refine ⟨_, (assignListWith_ok_iff self idle ordered legible overwrites).mpr ⟨after, ran, rfl⟩, ?_⟩
      exact (ends values after reads same).imp fun _ _ found => storage?_changeList.trans found

/-- The destination takes over the values that the source had at the start just if no variable of the source shows
another one when its turn comes. Where these variables are stored, that is so unless one of them has been written
before with another value; where nothing that they depend on is written, it is so in any case. -/
theorem values_taken_over_iff (ongoing : world.Ongoing) (idle : world.isBusy list = false)
    (distinct : ((world.slots list).map Slot.target).Nodup) (legible : Legible config region world)
    (overwrites : List.Forall₂ (Overwrites region world) (world.slots list) (world.slots source))
    (before : List.Forall₂ (fun given value => world.HasValue config given.target value) (world.slots source) values) :
    (world.TakesOver config list source values ↔
      (world.setBusy list true).ReadInTurn config (world.slots list) (world.slots source) values) ∧
    ((∀ given ∈ world.slots source, ∃ value, world.storage? given.target = some (.stored value)) →
      (world.TakesOver config list source values ↔
        ((world.slots list).zip ((world.slots source).zip values)).Pairwise fun earlier later =>
          later.2.1.target = earlier.1.target → earlier.2.2 = later.2.2)) ∧
    (¬ region list → (∀ current ∈ world.slots list, ¬ region current.target) →
      world.TakesOver config list source values) := by
  have ordered := ongoing.sound.ordered
  have turns : world.TakesOver config list source values ↔ _ :=
    takesOver_iff_readInTurn ordered idle distinct legible overwrites
  have stored : ∀ slot ∈ world.slots list, ∃ former, (world.setBusy list true).storage? slot.target = some (.stored former) := by
    intro slot inside
    rw [setBusy, storage?_changeList]
    exact stored_of_overwrites overwrites slot inside
  refine ⟨turns, fun plain => ?_, fun apart others => turns.mpr ?_⟩
  · rw [turns]
    refine readInTurn_iff_of_stored overwrites.length_eq distinct stored ?_
    obtain ⟨many, all⟩ := List.forall₂_iff_zip.mp before
    refine List.forall₂_iff_zip.mpr ⟨many, fun {given value} inside => ?_⟩
    obtain ⟨former, found⟩ := plain given (List.of_mem_zip inside).1
    rw [setBusy, storage?_changeList, found, (hasValue_stored found).mp (all inside)]
  · have alike : Mirrors config region world (world.setBusy list true) := (mirrors_setBusy apart).1
    refine readInTurn_of_apart overwrites.length_eq (fun slot inside => (given_of_overwrites overwrites slot inside).1)
      others legible.setBusy ordered.setBusy ?_
    obtain ⟨many, all⟩ := List.forall₂_iff_zip.mp before
    refine List.forall₂_iff_zip.mpr ⟨many, fun {given value} inside => ?_⟩
    exact (all inside).mirrors (given_of_overwrites overwrites given (List.of_mem_zip inside).1).1 legible alike ordered.setBusy

/-- Two variables in a list, and in another one the other way round. -/
def crossed : World :=
  (runAll {} [
    { action := .create (.value "" (.text "x")), name := some "a" },
    { action := .create (.value "" (.text "y")), name := some "b" },
    { action := .create (.list "d"), name := some "d" },
    { action := .create (.list "s"), name := some "s" },
    { action := .list (.pushItself (.handle "a")), target := some "d" },
    { action := .list (.pushItself (.handle "b")), target := some "d" },
    { action := .list (.pushItself (.handle "b")), target := some "s" },
    { action := .list (.pushItself (.handle "a")), target := some "s" }]).2

theorem slots_crossed : crossed.slots 2 = [.held 0, .held 1] ∧ crossed.slots 3 = [.held 1, .held 0] := by decide +kernel

theorem stored_crossed :
    crossed.storage? 0 = some (.stored (.text "x")) ∧ crossed.storage? 1 = some (.stored (.text "y")) := by
  decide +kernel

private theorem legible_crossed : Legible {} (· < 2) crossed where
  slots {list slot} inside member := by
    have none : ∀ list < 2, crossed.slots list = [] := by decide +kernel
    rw [none list inside] at member
    cases member
  shown {ref storage source} inside found shows := by
    have none : ∀ ref < 2, (crossed.storage? ref).bind Storage.shown? = none := by decide +kernel
    have shown := none ref inside
    rw [found, Option.bind_some, shows] at shown
    cases shown
  pure {ref storage} inside found := by
    have stored : ref = 0 ∨ ref = 1 := Nat.le_one_iff_eq_zero_or_eq_one.mp (Nat.le_of_lt_succ inside)
    rcases stored with rfl | rfl
    · obtain rfl := Option.some.inj (stored_crossed.1.symm.trans found)
      trivial
    · obtain rfl := Option.some.inj (stored_crossed.2.symm.trans found)
      trivial

/-- The second variable does not get the value of the first one, which has been overwritten by then. -/
theorem values_taken_over_iff_of_crossing : ¬ crossed.TakesOver {} 2 3 [.text "y", .text "x"] := by
  have ongoing : crossed.Ongoing := Reachable.ongoing (.runAll (.start {}) _)
  have distinct : ((crossed.slots 2).map Slot.target).Nodup := by decide +kernel
  have isVar : crossed.kindOf 0 = .var ∧ crossed.kindOf 1 = .var := by decide +kernel
  have changeable : crossed.isConstant 0 = false ∧ crossed.isConstant 1 = false := by decide +kernel
  have held : crossed.isHeld 0 = true ∧ crossed.isHeld 1 = true := by decide +kernel
  have overwrites : List.Forall₂ (Overwrites (· < 2) crossed) (crossed.slots 2) (crossed.slots 3) := by
    rw [slots_crossed.1, slots_crossed.2]
    refine .cons ?_ (.cons ?_ .nil)
    · exact ⟨⟨_, stored_crossed.1⟩, changeable.1, isVar.2, Nat.lt_succ_self 1, held⟩
    · exact ⟨⟨_, stored_crossed.2⟩, changeable.2, isVar.1, Nat.succ_pos 1, held.symm⟩
  have before : List.Forall₂ (fun given value => crossed.HasValue {} given.target value) (crossed.slots 3)
      [.text "y", .text "x"] := by
    rw [slots_crossed.2]
    exact .cons ((hasValue_stored stored_crossed.2).mpr rfl) (.cons ((hasValue_stored stored_crossed.1).mpr rfl) .nil)
  have plain : ∀ given ∈ crossed.slots 3, ∃ value, crossed.storage? given.target = some (.stored value) := by
    rw [slots_crossed.2]
    simp [Slot.target, stored_crossed]
  have decided := (values_taken_over_iff ongoing (by decide +kernel) distinct legible_crossed overwrites before).2.1 plain
  rw [decided, slots_crossed.1, slots_crossed.2]
  simp [Slot.target]

/-- The variables of a list are assigned those of another list in which they stand the other way round: the value of
the first one is lost. -/
theorem value_lost_by_crossing :
    (crossed.run { action := .list (.assign (.handle "s")), target := some "d" }).1.stop? = none ∧
      (crossed.run { action := .list (.assign (.handle "s")), target := some "d" }).2.storage? 1 =
        some (.stored (.text "y")) ∧
      crossed.storage? 0 = some (.stored (.text "x")) := by
  decide +kernel

end World

end Dialogue
