import Dialogue.World.Basic

/-!
Lifetimes. An object lives while a handle, running code or a living object holds it, and goes with
the last of them, together with everything that only it held. Objects that hold each other in a
circle therefore stay.
-/

namespace Dialogue

namespace World

def isHeld (world : World) (ref : Ref) : Bool :=
  world.inUse.contains ref || world.handles.values.contains ref || world.heap.holds ref

/-- Takes an object out of the heap. Its members have no owner any more. -/
def bury (world : World) (ref : Ref) : World :=
  let orphans := (world.members ref).values
  orphans.foldl (fun world member => world.setParent member none)
    { world with heap := world.heap.erase ref }

/-- Buries an object that nothing holds, and then what nothing holds without it. -/
def releaseWithin : Nat → World → Ref → World
  | 0, world, _ => world
  | fuel + 1, world, ref =>
    match world.object? ref with
    | none => world
    | some object =>
      if world.isHeld ref then world
      else object.holds.foldl (releaseWithin fuel) (world.bury ref)

/-- Every burial on the way takes one object out of the heap, so none nests deeper than its size. -/
def release (world : World) (ref : Ref) : World := releaseWithin world.heap.size world ref

def releaseAll (world : World) (refs : List Ref) : World := refs.foldl release world

end World

namespace Act

variable {α : Type}

def release (ref : Ref) : Act Unit := update (·.release ref)

def releaseAll (refs : List Ref) : Act Unit := update (·.releaseAll refs)

/-- Holds an object until the act that is running lets go of all it holds. -/
def keep (ref : Ref) : Act Ref := do
  update fun world => { world with inUse := ref :: world.inUse }
  return ref

/-- Runs an act and lets go of all that it kept, except for what its result refers to. -/
def lettingGo (refs : α → List Ref) (act : Act α) : Act α := fun world =>
  let settled (kept : List Ref) (after : World) :=
    World.releaseAll { after with inUse := kept ++ world.inUse } after.inUse
  match act world with
  | .ok result after => .ok result (settled (refs result) after)
  | .error stop after => .error stop (settled [] after)

/-- Runs an act that holds some objects for as long as it runs. -/
def holding (refs : List Ref) (act : Act α) : Act α :=
  lettingGo (fun _ => []) do
    update fun world => { world with inUse := refs ++ world.inUse }
    act

end Act

end Dialogue
