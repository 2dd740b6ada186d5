import Dialogue.Script
import Dialogue.World.Heap

/-!
Worlds: the heap, what hosts and running code hold of it, the settings and the bodies of blocks. An
act changes a world and gives a result or stops; what it had changed before it stopped stays.
-/

namespace Dialogue

structure World where
  heap : Heap := {}
  /-- The objects that running code holds. -/
  inUse : List Ref := []
  /-- The objects that hosts hold, by the names of their handles. -/
  handles : Table Ref := {}
  /-- Handles that keep nothing alive; some were made for no object at all. -/
  weakHandles : Table (Option Ref) := {}
  config : Config := {}
  /-- The bodies of blocks by file and offset, the newest first. -/
  scripts : List ((Nat × Nat) × List Instruction) := []

namespace World

def object? (world : World) (ref : Ref) : Option Object := world.heap.get? ref

def isLive (world : World) (ref : Ref) : Bool := (world.object? ref).isSome

def kindOf (world : World) (ref : Ref) : Kind := (world.object? ref).elim .plain Object.kind

def nameOf (world : World) (ref : Ref) : String := (world.object? ref).elim "" (·.name)

def isConstant (world : World) (ref : Ref) : Bool := (world.object? ref).any (·.constant)

def parent? (world : World) (ref : Ref) : Option Ref := do
  let parent ← (← world.object? ref).parent
  if world.isLive parent then some parent else none

def isRegistered (world : World) (ref : Ref) : Bool := (world.parent? ref).isSome

def body? (world : World) (ref : Ref) : Option Body := (world.object? ref).map (·.body)

def scope? (world : World) (ref : Ref) : Option ScopeData :=
  match world.body? ref with
  | some (.scope data) => some data
  | _ => none

def members (world : World) (ref : Ref) : Table Ref := (world.scope? ref).elim {} (·.members)

def imports (world : World) (ref : Ref) : List Ref := (world.scope? ref).elim [] (·.imports)

def role? (world : World) (ref : Ref) : Option Role := (world.scope? ref).map (·.role)

def block? (world : World) (ref : Ref) : Option BlockData :=
  match world.role? ref with
  | some (.block data) => some data
  | _ => none

def storage? (world : World) (ref : Ref) : Option Storage :=
  match world.body? ref with
  | some (.var storage) => some storage
  | _ => none

def list? (world : World) (ref : Ref) : Option ListData :=
  match world.body? ref with
  | some (.list data) => some data
  | _ => none

def slots (world : World) (ref : Ref) : List Slot := (world.list? ref).elim [] (·.slots)

def length (world : World) (ref : Ref) : Nat := (world.slots ref).length

def isBusy (world : World) (ref : Ref) : Bool := (world.list? ref).any (·.busy)

/-- The body stored for a position, empty if there is none. -/
def script (world : World) (position : Position) : List Instruction :=
  (world.scripts.lookup (position.file, position.offset)).getD []

/-- Adds an object, whose identity is the size of the heap before. -/
def add (world : World) (object : Object) : World := { world with heap := world.heap.add object }

def change (world : World) (ref : Ref) (rule : Object → Object) : World :=
  { world with heap := world.heap.modify ref rule }

def setName (world : World) (ref : Ref) (name : String) : World :=
  world.change ref fun object => { object with name }

def setConstant (world : World) (ref : Ref) (constant : Bool) : World :=
  world.change ref fun object => { object with constant }

def setParent (world : World) (ref : Ref) (parent : Option Ref) : World :=
  world.change ref fun object => { object with parent }

def changeScope (world : World) (ref : Ref) (rule : ScopeData → ScopeData) : World :=
  world.change ref fun object =>
    match object.body with
    | .scope data => { object with body := .scope (rule data) }
    | _ => object

def changeMembers (world : World) (ref : Ref) (rule : Table Ref → Table Ref) : World :=
  world.changeScope ref fun data => { data with members := rule data.members }

def changeBlock (world : World) (ref : Ref) (rule : BlockData → BlockData) : World :=
  world.changeScope ref fun data =>
    match data.role with
    | .block block => { data with role := .block (rule block) }
    | _ => data

def setStorage (world : World) (ref : Ref) (storage : Storage) : World :=
  world.change ref fun object =>
    match object.body with
    | .var _ => { object with body := .var storage }
    | _ => object

def changeList (world : World) (ref : Ref) (rule : ListData → ListData) : World :=
  world.change ref fun object =>
    match object.body with
    | .list data => { object with body := .list (rule data) }
    | _ => object

def changeSlots (world : World) (ref : Ref) (rule : List Slot → List Slot) : World :=
  world.changeList ref fun data => { data with slots := rule data.slots }

def setBusy (world : World) (ref : Ref) (busy : Bool) : World :=
  world.changeList ref fun data => { data with busy }

end World

abbrev Act := EStateM Stop World

namespace Act

variable {α : Type}

def see (view : World → α) : Act α := fun world => .ok (view world) world

def update (rule : World → World) : Act Unit := fun world => .ok () (rule world)

def raise (cause : Cause) : Act α := throw (.ofCause cause)

/-- Takes over a result that no world was needed for. -/
def lift (result : Except Cause α) : Act α :=
  match result with
  | .ok value => pure value
  | .error cause => raise cause

def liftStop (result : Except Stop α) : Act α :=
  match result with
  | .ok value => pure value
  | .error stop => throw stop

/-- Takes over the value of an evaluation. -/
def compute (result : Except (Failure Cause) α) : Act α := liftStop (result.mapError Stop.ofFailure)

/-- Adds an object and gives its identity. -/
def add (object : Object) : Act Ref := fun world => .ok world.heap.size (world.add object)

def addValue (name : String) (value : Scalar) : Act Ref := add { name, body := .var (.stored value) }

/-- The referenced object while it lives; `name` tells what is missing otherwise. -/
def demand (ref : Ref) (name : String) : Act Ref := do
  if ← see (·.isLive ref) then return ref else raise (.notFound name)

def element (slot : Slot) : Act Ref :=
  match slot with
  | .held ref => pure ref
  | .link target name => demand target name

end Act

end Dialogue
