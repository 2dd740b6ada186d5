import Dialogue.Scopes.Builtin

/-!
Resolution of identifiers. A member found in the scope at hand is final: it is the answer or is
searched for the rest of the identifier. Only where there is no such member are the imports searched,
in the order of their import. A scope that was searched in vain for so many segments is not imported
again.
-/

namespace Dialogue

/-- The scopes that were searched in vain, each with the number of segments that were left. -/
abbrev Trail := List (Ref × Nat)

/-- What a search has come to; looking for members may have made built-in ones. -/
structure Search where
  answer : Option Ref
  trail : Trail
  world : World

/-- Searches imported scopes until one has the answer. -/
def Search.through (inner : World → Trail → Ref → Option Search) (remaining : Nat) :
    List Ref → World → Trail → Option Search
  | [], world, trail => some ⟨none, trail, world⟩
  | imported :: rest, world, trail =>
    if trail.contains (imported, remaining) || !world.isLive imported then
      through inner remaining rest world trail
    else do
      let found ← inner world trail imported
      if found.answer.isSome then some found
      else through inner remaining rest found.world found.trail

namespace World

/-- The search for some segments from a scope; it fails only when the fuel is used up. -/
def searchWithin : Nat → World → Trail → Ref → List String → Option Search
  | 0, _, _, _, _ => none
  | _ + 1, world, trail, _, [] => some ⟨none, trail, world⟩
  | fuel + 1, world, trail, scope, head :: rest =>
    if head.isEmpty then some ⟨none, trail, world⟩
    else
      let world := world.materialize scope head
      match (world.members scope).find? head with
      | some member =>
        if rest.isEmpty then some ⟨some member, trail, world⟩
        else if (world.kindOf member).isScope then searchWithin fuel world trail member rest
        else some ⟨none, trail, world⟩
      | none =>
        let remaining := rest.length + 1
        Search.through (fun world trail imported => searchWithin fuel world trail imported (head :: rest))
          remaining (world.imports scope) world ((scope, remaining) :: trail)

/-- For each number of remaining segments a search enters every scope at most once by an import. -/
def searchFuel (world : World) (segments : List String) : Nat :=
  segments.length * (world.heap.size + 1) + 1

def search (world : World) (scope : Ref) (segments : List String) : Option Search :=
  searchWithin (world.searchFuel segments) world [] scope segments

/-- Absolute identifiers are searched for from the root, all others from the scope. -/
def resolve (world : World) (scope : Ref) (id : Identifier) : Option Search :=
  if id.isAbsolute then
    if (world.kindOf (world.root scope)).isScope then world.search (world.root scope) id.relative
    else some ⟨none, [], world⟩
  else world.search scope id.segments

end World

namespace Act

def tryResolve (scope : Ref) (id : Identifier) : Act (Option Ref) := fun world =>
  match world.resolve scope id with
  | some found => .ok found.answer found.world
  | none => .error (.fault .exhausted) world

def resolve (scope : Ref) (id : Identifier) : Act Ref := do
  match ← tryResolve scope id with
  | some object => return object
  | none => raise (.notFound id.text)

/-- Whether a text resolves; the empty text does not. -/
def resolves (scope : Ref) (text : String) : Act Bool := do
  if text.isEmpty then return false
  return (← tryResolve scope (.parse text)).isSome

end Act

end Dialogue
