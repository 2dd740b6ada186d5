import Dialogue.Scopes.Builtin
import Dialogue.World.Lifetime

/-!
Members of scopes: how objects are registered, taken out and renamed, and which scopes a scope
imports. An object is a member of at most one scope, under its own name.
-/

namespace Dialogue

namespace World

def detach (world : World) (object : Ref) : World :=
  match world.parent? object with
  | none => world
  | some owner =>
    if (world.members owner).find? (world.nameOf object) = some object then
      (world.changeMembers owner (·.erase (world.nameOf object))).setParent object none
    else world

/-- A scope without members, which answers to every built-in name anew. -/
def clearMembers (world : World) (scope : Ref) : World :=
  let orphans := (world.members scope).values
  orphans.foldl (fun world member => world.setParent member none)
    (world.changeScope scope fun data => { data with members := {}, claimed := [] })

end World

namespace Act

/-- The member of a name, made now if it is built in. -/
def member? (scope : Ref) (name : String) : Act (Option Ref) := do
  update (·.materialize scope name)
  see fun world => (world.members scope).find? name

def hasMember (scope : Ref) (name : String) : Act Bool := do
  return (← member? scope name).isSome

/-- Moves an object into a scope that may be constant. -/
def adopt (scope object : Ref) : Act Unit := do
  let name ← see (·.nameOf object)
  if ← hasMember scope name then raise (.alreadyExists name (← see (·.fullName scope)))
  if (← see (·.lineage scope)).contains object then
    raise (.ownershipCycle (← see (·.fullName object)))
  update fun world => (world.detach object).insertMember scope object

def register (scope object : Ref) : Act Unit := do
  requireChangeable scope
  adopt scope object

/-- Takes the member of a name out of its scope. Nothing may hold it any more, so whoever asked for
it releases it. -/
def unregister (scope : Ref) (name : String) : Act Ref := do
  match ← see fun world => (world.members scope).find? name with
  | none =>
    raise (.internal (Cause.named name ++ " is not a member of " ++ Cause.named (← see (·.fullName scope))))
  | some object =>
    update fun world => (world.changeMembers scope (·.erase name)).setParent object none
    return object

def clear (scope : Ref) : Act Unit := do
  let members ← see fun world => (world.members scope).values
  update (·.clearMembers scope)
  releaseAll members

/-- Renames an object and enters it anew in its scope. A taken name is found out before anything
changes. -/
def rename (object : Ref) (name : String) : Act Unit := do
  requireChangeable object
  let oldName ← see (·.nameOf object)
  if oldName = name then return
  match ← see (·.parent? object) with
  | none => update (·.setName object name)
  | some scope =>
    if ← hasMember scope name then raise (.alreadyExists name (← see (·.fullName scope)))
    let taken ← unregister scope oldName
    update (·.setName taken name)
    adopt scope taken

def importScope (scope imported : Ref) : Act Unit := do
  requireScope imported
  if imported = scope ∨ imported ∈ (← see (·.imports scope)) then
    raise (.alreadyExists (← see (·.fullName imported)) (← see (·.fullName scope)))
  update (·.changeScope scope fun data => { data with imports := data.imports ++ [imported] })

def unimport (scope imported : Ref) : Act Unit := do
  unless (← see (·.imports scope)).contains imported do
    raise (.notImported (← see (·.fullName imported)))
  update (·.changeScope scope fun data => { data with imports := data.imports.erase imported })

end Act

end Dialogue
