import Dialogue.Lists.Basic
import Dialogue.Variables.Reading

/-!
Copies by value. A variable becomes a new variable with the value it has, a list a new list of
copies; other objects are not copied but shared. A copy is planned first and made when nothing can
fail any more, so a failed copy leaves nothing behind.
-/

namespace Dialogue

inductive Copy where
  | value (scalar : Scalar)
  | list (items : List Copy)
  | keep (slot : Slot)

/-- Planning marks every list busy that it goes into. -/
def World.copyingFuel (world : World) : Nat := world.heap.size + 1

namespace Act

/-- Plans the copy of a slot; an alias of an object that is gone stays as it is. -/
def planSlot (plan : Ref → Act Copy) (slot : Slot) : Act Copy := do
  match slot with
  | .held element => plan element
  | .link target _ => if ← see (·.isLive target) then plan target else return .keep slot

/-- Plans copies of the slots of a list; a list that is being read shares its slots. -/
def planSlots (plan : Ref → Act Copy) (list : Ref) : Act (List Copy) := do
  let slots ← see (·.slots list)
  if ← see (·.isBusy list) then return slots.map .keep
  whileBusy list (slots.mapM (planSlot plan))

def planWith (plan : Ref → Act Copy) (config : Config) (ref : Ref) : Act Copy := do
  match ← see (·.kindOf ref) with
  | .var => return .value (← value config ref)
  | .list =>
    if ← see (·.isBusy ref) then return .keep (← aliasOf ref)
    return .list (← planSlots plan ref)
  | _ => return .keep (← reference ref)

def planWithin : Nat → Config → Ref → Act Copy
  | 0, _, _ => throw (.fault .exhausted)
  | fuel + 1, config, ref => planWith (planWithin fuel config) config ref

def plan (config : Config) (ref : Ref) : Act Copy := do
  planWithin (← see (·.copyingFuel)) config ref

mutual
def make : Copy → Act Slot
  | .value scalar => return .held (← addValue "" scalar)
  | .list items => do
    let slots ← makeAll items
    return .held (← add { name := "", body := .list { slots } })
  | .keep slot => return slot

def makeAll : List Copy → Act (List Slot)
  | [] => return []
  | copy :: rest => return (← make copy) :: (← makeAll rest)
end

def copy (config : Config) (ref : Ref) : Act Slot := do
  make (← plan config ref)

def duplicateList (config : Config) (list : Ref) : Act Ref := do
  let slots ← makeAll (← planSlots (plan config) list)
  add { name := "", body := .list { slots } }

/-- Appends a copy and gives the element that is now in the list. -/
def push (list object : Ref) (config : Config) : Act Ref := do
  requireChangeable list
  requireRoom list 1
  let slot ← copy config object
  extend list [slot]
  element slot

def append (list other : Ref) (config : Config) : Act Unit := do
  requireChangeable list
  let copies ← planSlots (plan config) other
  requireRoom list copies.length
  extend list (← makeAll copies)

/-- Stores a copy at an index and gives the element that is now in the list. -/
def replace (list : Ref) (index : Int) (object : Ref) (config : Config) : Act Ref := do
  requireChangeable list
  let position ← position list index config
  let slot ← copy config object
  replaceSlot list position slot
  element slot

end Act

end Dialogue
