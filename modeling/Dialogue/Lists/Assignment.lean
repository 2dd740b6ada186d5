import Dialogue.Lists.Copying
import Dialogue.Variables.Writing

/-!
Assignment of lists. Where both lists have an element, a variable takes the value and a list is
assigned in turn, so that whoever shares the element sees the change; other elements are replaced by
copies. The list then takes the length of the source, unless it is constant.
-/

namespace Dialogue

/-- More than the number of lists that can lie inside one another while copies are being made. -/
def World.assignmentFuel (world : World) : Nat := world.heap.size + Nat.pow 2 64

namespace Act

/-- Assigns one element; `nested` assigns lists. -/
def assignElement (nested : Ref → Ref → Act Unit) (list : Ref) (position : Nat) (source : Ref)
    (config : Config) : Act Unit := do
  let some current := (← see (·.slots list))[position]? | throw (.fault .missingSlot)
  let target := match current with
    | .held element => element
    | .link target _ => target
  let overwrite : Act Unit := do replaceSlot list position (← copy config source)
  if ← see (·.isLive target) then
    holding [target] do
      match ← see (·.kindOf target), ← see (·.kindOf source) with
      | .var, .var => if ← see (·.isConstant target) then overwrite else assignFrom target source config
      | .list, .list =>
        if (← see (·.isBusy target)) || target == source then overwrite else nested target source
      | _, _ => overwrite
  else overwrite

def assignOverlap (nested : Ref → Ref → Act Unit) (list : Ref) (config : Config) :
    Nat → List Slot → Act Unit
  | _, [] => return
  | position, slot :: rest => do
    let source := match slot with
      | .held element => element
      | .link target _ => target
    if ← see (·.isLive source) then
      holding [source] (assignElement nested list position source config)
    else replaceSlot list position slot
    assignOverlap nested list config (position + 1) rest

/-- Brings a list to the length of the source once the slots that both have are assigned. -/
def assignRest (list : Ref) (overlap : Nat) (rest : List Slot) (config : Config) : Act Unit := do
  if rest.isEmpty then
    if (← see (·.length list)) < overlap then throw (.fault .missingSlot)
    truncate list overlap
  else
    let copies ← rest.mapM (planSlot (plan config))
    requireRoom list copies.length
    extend list (← makeAll copies)

def assignListWith (nested : Ref → Ref → Act Unit) (config : Config) (list source : Ref) :
    Act Unit := do
  if list = source ∨ (← see (·.isBusy list)) then return
  let slots ← see (·.slots source)
  holding (slots.filterMap Slot.held?) do
    whileBusy list do
      let overlap := min (← see (·.length list)) slots.length
      assignOverlap nested list config 0 (slots.take overlap)
      unless ← see (·.isConstant list) do assignRest list overlap (slots.drop overlap) config

def assignListWithin : Nat → Config → Ref → Ref → Act Unit
  | 0, _, _, _ => throw (.fault .exhausted)
  | fuel + 1, config, list, source => assignListWith (assignListWithin fuel config) config list source

def assignList (list source : Ref) (config : Config) : Act Unit := do
  assignListWithin (← see (·.assignmentFuel)) config list source

end Act

end Dialogue
