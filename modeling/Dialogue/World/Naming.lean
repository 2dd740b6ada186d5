import Dialogue.Identifier
import Dialogue.World.Basic

/-!
Full names: the names from the root of the tree of owners down to an object. The root of a session
has the empty name, so that full names below it are absolute identifiers.
-/

namespace Dialogue.World

/-- The object, its owner, the owner of that and so on. -/
def lineageWithin : Nat → World → Ref → List Ref
  | 0, _, _ => []
  | fuel + 1, world, ref =>
    ref :: match world.parent? ref with
      | some parent => lineageWithin fuel world parent
      | none => []

/-- No lineage is longer than the heap, in which every owner stands once. -/
def lineage (world : World) (ref : Ref) : List Ref := lineageWithin (world.heap.size + 1) world ref

def fullName (world : World) (ref : Ref) : String :=
  Identifier.join ((world.lineage ref).reverse.map world.nameOf)

/-- The last owner in the lineage, which may be the object itself. -/
def root (world : World) (ref : Ref) : Ref := (world.lineage ref).getLast?.getD ref

end Dialogue.World

namespace Dialogue.Act

/-- Refuses to go on with a constant object. -/
def requireChangeable (ref : Ref) : Act Unit := do
  if ← see (·.isConstant ref) then raise (.constantModified (← see (·.fullName ref)))

/-- Refuses to go on with an object that cannot be used as one of the target kind. -/
def requireKind (allowed : Kind → Bool) (target : Kind) (ref : Ref) : Act Unit := do
  unless allowed (← see (·.kindOf ref)) do raise (.noConversion (← see (·.fullName ref)) target.name)

def requireScope : Ref → Act Unit := requireKind Kind.isScope .scope

def requireOperator : Ref → Act Unit :=
  requireKind (fun kind => kind == .operator || kind == .block) .operator

def requireBlock : Ref → Act Unit := requireKind (· == .block) .block

def requireList : Ref → Act Unit := requireKind (· == .list) .list

end Dialogue.Act
