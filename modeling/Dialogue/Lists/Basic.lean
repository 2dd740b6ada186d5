import Dialogue.World.Lifetime
import Dialogue.World.Naming

/-!
Lists and their slots. A slot holds its element or is an alias of one that lives elsewhere. Negative
indices count from the end; an index past the end is refused or, where lists are not strict, makes
the list grow with zeros until it is valid.
-/

namespace Dialogue.Act

def aliasOf (ref : Ref) : Act Slot := return .link ref (← see (·.fullName ref))

/-- The slot for an object that is not copied: an alias if a scope owns it. -/
def reference (ref : Ref) : Act Slot := do
  if ← see (·.isRegistered ref) then aliasOf ref else return .held ref

/-- The elements in order; the first alias of an object that is gone stops the act. -/
def elements (list : Ref) : Act (List Ref) := do
  (← see (·.slots list)).mapM element

/-- New zeros at the active precision, in slots of their own. -/
def zeros (config : Config) : Nat → Act (List Slot)
  | 0 => return []
  | count + 1 => do
    let element ← addValue "" (.number (.zero config.precision))
    return .held element :: (← zeros config count)

def extend (list : Ref) (slots : List Slot) : Act Unit := update (·.changeSlots list (· ++ slots))

def truncate (list : Ref) (length : Nat) : Act Unit := do
  let dropped := (← see (·.slots list)).drop length
  update (·.changeSlots list (·.take length))
  releaseAll (dropped.filterMap Slot.held?)

def requireRoom (list : Ref) (extra : Nat) : Act Unit := do
  let wanted := (← see (·.length list)) + extra
  if Limits.listLength < wanted then raise (.listTooBig wanted Limits.listLength)

def resize (list : Ref) (size : Int) (config : Config) : Act Unit := do
  if size < 0 ∨ Limits.listLength < size then raise (.listTooBig size Limits.listLength)
  requireChangeable list
  let length ← see (·.length list)
  if length ≤ size.toNat then extend list (← zeros config (size.toNat - length))
  else truncate list size.toNat

/-- The position that an index means; the list may grow on the way. -/
def position (list : Ref) (index : Int) (config : Config) : Act Nat := do
  let length ← see (·.length list)
  if index < 0 then
    if 0 ≤ length + index then return (length + index).toNat else raise (.noElement index length)
  else if index < length then return index.toNat
  else if config.strictLists then raise (.noElement index length)
  else
    resize list (min (index + 1) (Limits.integerBound - 1)) config
    return index.toNat

def elementAt (list : Ref) (position : Nat) : Act Ref := do
  let slots ← see (·.slots list)
  match slots[position]? with
  | some slot => element slot
  | none => raise (.noElement position slots.length)

def get (list : Ref) (index : Int) (config : Config) : Act Ref := do
  elementAt list (← position list index config)

/-- Appends an object itself; a list that is put into itself becomes an alias. -/
def pushItself (list object : Ref) : Act Unit := do
  requireChangeable list
  requireRoom list 1
  if object = list then extend list [← aliasOf object] else extend list [.held object]

/-- Appends an alias, whether or not a scope owns the object. -/
def pushAlias (list object : Ref) : Act Unit := do
  requireChangeable list
  requireRoom list 1
  extend list [← aliasOf object]

def appendThemselves (list other : Ref) : Act Unit := do
  requireChangeable list
  let slots ← see (·.slots other)
  requireRoom list slots.length
  extend list slots

/-- Takes out the last element, which nothing may hold any more: whoever asked for it releases it. -/
def pop (list : Ref) : Act Ref := do
  requireChangeable list
  match (← see (·.slots list)).getLast? with
  | none => raise (.noElement (-1) 0)
  | some slot =>
    update (·.changeSlots list (·.dropLast))
    element slot

/-- Takes out the element at an index; whoever asked for it releases it. -/
def remove (list : Ref) (index : Int) (config : Config) : Act Ref := do
  requireChangeable list
  let position ← position list index config
  match (← see (·.slots list))[position]? with
  | none => throw (.fault .missingSlot)
  | some slot =>
    update (·.changeSlots list (·.eraseIdx position))
    element slot

/-- Puts a new zero before an index. At the length this appends one zero, also in a strict list. -/
def insert (list : Ref) (index : Int) (config : Config) : Act Ref := do
  requireChangeable list
  requireRoom list 1
  let length ← see (·.length list)
  let position ← if index = length then pure length else position list index config
  let element ← addValue "" (.number (.zero config.precision))
  update (·.changeSlots list (·.insertIdx position (.held element)))
  return element

def replaceSlot (list : Ref) (position : Nat) (slot : Slot) : Act Unit := do
  match (← see (·.slots list))[position]? with
  | none => throw (.fault .missingSlot)
  | some previous =>
    update (·.changeSlots list (·.set position slot))
    releaseAll previous.held?.toList

def lengthVariable (list : Ref) : Act Ref := do
  add { name := "length", body := .var (.bound (.length list (← see (·.fullName list)))) }

end Dialogue.Act
