import Dialogue.World.Naming

/-!
Tours: walks over an object and everything below it, the members of each scope in the order of their
names.
-/

namespace Dialogue

inductive Tour where
  /-- The objects that are no scopes. -/
  | leaves
  /-- The scopes, operators and blocks, all alike. -/
  | scopes
  /-- Every object by its kind. -/
  | census
deriving DecidableEq

namespace Tour

/-- How an object of a kind is reported, if it is. -/
def tag? (tour : Tour) (kind : Kind) : Option String :=
  match tour, kind with
  | leaves, .plain | leaves, .var | leaves, .list => some "object"
  | leaves, _ => none
  | scopes, .scope | scopes, .operator | scopes, .block => some "scope"
  | scopes, _ => none
  | census, .plain => some "object"
  | census, .scope => some "scope"
  | census, .var => some "variable"
  | census, .list => some "list"
  | census, .operator => some "operator"
  | census, .block => some "block"

end Tour

namespace World

/-- The object and everything below it; an owner comes before its members. -/
def descendWithin : Nat → World → Ref → List Ref
  | 0, _, _ => []
  | fuel + 1, world, ref => ref :: (world.members ref).values.flatMap (descendWithin fuel world)

def descend (world : World) (ref : Ref) : List Ref := descendWithin (world.heap.size + 1) world ref

/-- The reports of a tour with the full names of the objects. -/
def tour (world : World) (tour : Tour) (ref : Ref) : List (String × String) :=
  (world.descend ref).filterMap fun object =>
    (tour.tag? (world.kindOf object)).map fun tag => (tag, world.fullName object)

end World

end Dialogue
