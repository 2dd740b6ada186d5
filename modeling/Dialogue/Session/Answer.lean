import Dialogue.Inspection
import Dialogue.Session.Action

/-!
Answers of a session. A step first comes to objects, which are described once the step has let go of
everything else, so that the descriptions show the world as the step leaves it.
-/

namespace Dialogue

/-- What a step comes to, where objects appear as values of a type of their own. -/
inductive Outcome (ω : Type) where
  | nothing
  | flag (value : Bool)
  | integer (value : Int)
  | text (value : String)
  | texts (values : List String)
  /-- A scalar, to be written under the settings. -/
  | scalar (value : Scalar) (config : Config)
  | number (value : Number) (config : Config)
  | settings (config : Config)
  | object (object : ω)
  | described (object : ω) (isScope : Bool)
  | objects (objects : List ω)
  | tour (reports : List (String × String))
  | pointing (same : Bool) (text : String)
  | bookmark (position : Position) (context : Option ω)

structure Description where
  kind : Kind
  name : String
  fullName : String
  constant : Bool
  registered : Bool
  handles : List String
  /-- The value of a variable, or why it cannot be read. -/
  value : Option (Except Stop Scalar)
  length : Option Nat
  /-- The settings under which the value was read. -/
  config : Config

structure Answer where
  outcome : Except Stop (Outcome Description)
  /-- How many elements or members the object has that the step worked on. -/
  length : Option Nat

/-- Whether the session ends with an answer. -/
def Answer.ends (answer : Answer) : Bool :=
  match answer.outcome with
  | .ok _ => false
  | .error stop => stop.isFault

namespace Outcome

variable {α β : Type}

def refs (outcome : Outcome α) : List α :=
  match outcome with
  | object ref => [ref]
  | described ref _ => [ref]
  | objects refs => refs
  | bookmark _ context => context.toList
  | _ => []

def mapM (rule : α → Act β) : Outcome α → Act (Outcome β)
  | nothing => return nothing
  | flag value => return flag value
  | integer value => return integer value
  | text shown => return text shown
  | texts values => return texts values
  | scalar value config => return scalar value config
  | number value config => return number value config
  | settings config => return settings config
  | object ref => return object (← rule ref)
  | described ref isScope => return described (← rule ref) isScope
  | objects refs => return objects (← refs.mapM rule)
  | tour reports => return tour reports
  | pointing same shown => return pointing same shown
  | bookmark position context => return bookmark position (← context.mapM rule)

def ofOption (ref : Option α) : Outcome α := ref.elim nothing object

end Outcome

namespace World

/-- How many elements a list or members a scope has. -/
def extent? (world : World) (ref : Ref) : Option Nat :=
  match world.body? ref with
  | some (.list data) => some data.slots.length
  | some (.scope data) => some data.members.size
  | _ => none

def handlesOf (world : World) (ref : Ref) : List String :=
  (world.handles.entries.filter (·.2 == ref)).map (·.1)

end World

namespace Act

variable {α : Type}

/-- Whatever an act comes to, save a fault. -/
def attempt (act : Act α) : Act (Except Stop α) := fun world =>
  match act world with
  | .ok result after => .ok (.ok result) after
  | .error stop after => if stop.isFault then .error stop after else .ok (.error stop) after

/-- Describes an object; this reads a variable once. -/
def describe (ref : Ref) : Act Description := do
  let config ← see (·.config)
  let kind ← see (·.kindOf ref)
  return {
    kind
    name := ← see (·.nameOf ref)
    fullName := ← see (·.fullName ref)
    constant := ← see (·.isConstant ref)
    registered := ← see (·.isRegistered ref)
    handles := ← see (·.handlesOf ref)
    value := ← if kind = .var then some <$> attempt (value config ref) else pure none
    length := ← if kind = .list then some <$> see (·.length ref) else pure none
    config }

end Act

end Dialogue
