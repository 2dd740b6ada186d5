import Dialogue.Proofs.ActGuarantees

/-! Assignments of lists slot by slot. It makes no difference to an assignment whether a slot is an alias or holds an
element of the list's own: what it refers to is written or assigned in turn while it is held, or the slot is replaced.
-/

namespace Dialogue.Act

variable {world : World} {list target source : Ref} {config : Config} {nested : Ref → Ref → Act Unit} {position : Nat}
  {current slot : Slot} {slots done : List Slot}

/-- An element is replaced by a copy. -/
def overwrite (list : Ref) (position : Nat) (source : Ref) (config : Config) : Act Unit := do
  replaceSlot list position (← copy config source)

/-- Assigns an object to one that is there. -/
def assignInPlace (nested : Ref → Ref → Act Unit) (list : Ref) (position : Nat) (target source : Ref) (config : Config) :
    Act Unit := do
  match ← see (·.kindOf target), ← see (·.kindOf source) with
  | .var, .var =>
    if ← see (·.isConstant target) then overwrite list position source config else assignFrom target source config
  | .list, .list =>
    if (← see (·.isBusy target)) || target == source then overwrite list position source config else nested target source
  | _, _ => overwrite list position source config

/-- Assigns the slot at a position, or replaces it if the source refers to nothing there. -/
def assignSlot (nested : Ref → Ref → Act Unit) (list : Ref) (config : Config) (position : Nat) (slot : Slot) : Act Unit := do
  if ← see (·.isLive slot.target) then holding [slot.target] (assignElement nested list position slot.target config)
  else replaceSlot list position slot

/-- While a list is busy, the slots that it has in common with the source are assigned, and then it takes the length
of the source unless it is constant. -/
def assignSlots (nested : Ref → Ref → Act Unit) (list : Ref) (config : Config) (slots : List Slot) : Act Unit := do
  let overlap := min (← see (·.length list)) slots.length
  assignOverlap nested list config 0 (slots.take overlap)
  unless ← see (·.isConstant list) do assignRest list overlap (slots.drop overlap) config

theorem assignListWith_eq : assignListWith nested config list source = (do
    if list = source ∨ (← see (·.isBusy list)) then return
    let slots ← see (·.slots source)
    holding (slots.filterMap Slot.held?) (whileBusy list (assignSlots nested list config slots))) := rfl

theorem assignElement_eq : assignElement nested list position source config = (do
    let some current := (← see (·.slots list))[position]? | throw (.fault .missingSlot)
    if ← see (·.isLive current.target) then
      holding [current.target] (assignInPlace nested list position current.target source config)
    else overwrite list position source config) := by
  unfold assignElement
  refine bind_congr fun slots => ?_
  cases slots[position]? with
  | none => rfl
  | some current => cases current <;> rfl

theorem assignElement_of_live (there : (world.slots list)[position]? = some current)
    (live : world.isLive current.target = true) : assignElement nested list position source config world =
      holding [current.target] (assignInPlace nested list position current.target source config) world := by
  rw [assignElement_eq, see_bind, there]
  dsimp only
  rw [see_bind, live]
  rfl

theorem assignElement_of_gone (there : (world.slots list)[position]? = some current)
    (gone : world.isLive current.target = false) : assignElement nested list position source config world =
      overwrite list position source config world := by
  rw [assignElement_eq, see_bind, there]
  dsimp only
  rw [see_bind, gone]
  rfl

theorem assignOverlap_cons : assignOverlap nested list config position (slot :: slots) =
    assignSlot nested list config position slot >>= fun _ => assignOverlap nested list config (position + 1) slots := by
  unfold assignSlot
  rw [bind_assoc]
  cases slot <;> exact bind_congr fun live => by cases live <;> rfl

theorem assignOverlap_concat : assignOverlap nested list config position (done ++ [slot]) =
    assignOverlap nested list config position done >>= fun _ =>
      assignSlot nested list config (position + done.length) slot := by
  induction done generalizing position with
  | nil =>
    change assignOverlap nested list config position [slot] = assignSlot nested list config position slot
    rw [assignOverlap_cons]
    exact bind_pure_unit
  | cons first rest ih =>
    rw [List.cons_append, assignOverlap_cons, assignOverlap_cons, bind_assoc]
    refine bind_congr fun _ => ?_
    rw [ih, List.length_cons, Nat.add_right_comm, Nat.add_assoc]

/-- A variable that may change takes the value of another one, and a list that is not busy is assigned another one.
Whatever else is there is overwritten. -/
theorem Meets.assignInPlace {guarantee : Guarantee} {result : Unit → World → Prop}
    (overwrites : Meets guarantee (overwrite list position source config) world result)
    (writes : world.kindOf target = .var → world.kindOf source = .var → world.isConstant target = false →
      Meets guarantee (assignFrom target source config) world result)
    (nests : world.kindOf target = .list → world.kindOf source = .list → world.isBusy target = false → target ≠ source →
      Meets guarantee (nested target source) world result) :
    Meets guarantee (assignInPlace nested list position target source config) world result := by
  refine .look (.look ?_)
  split
  next isVar also =>
    refine .look ?_
    split
    next => exact overwrites
    next changeable => exact writes isVar also (Bool.not_eq_true _ ▸ changeable)
  next isList also =>
    refine .look ?_
    split
    next => exact overwrites
    next idle =>
      obtain ⟨free, apart⟩ := Bool.or_eq_false_iff.mp (Bool.not_eq_true _ ▸ idle)
      exact nests isList also free (ne_of_beq_false apart)
  next => exact overwrites

end Dialogue.Act
