import Dialogue.World.Naming

/-!
Built-in members. A scope answers to a few names that nobody registered; the member is made when its
name is first looked up, once until the scope is cleared.
-/

namespace Dialogue

namespace Builtin

def all : List Builtin := [name, fullName, doc, input, next, beenSaid]

def memberName : Builtin → String
  | name => "name"
  | fullName => "fullname"
  | doc => "doc"
  | input => "in"
  | next => "next"
  | beenSaid => "beenSaid"

def appliesTo (builtin : Builtin) (kind : Kind) : Bool :=
  match builtin with
  | name | fullName | doc => kind.isScope
  | input => kind == .operator || kind == .block
  | next | beenSaid => kind == .block

def ofName? (name : String) (kind : Kind) : Option Builtin :=
  all.find? fun builtin => builtin.memberName == name && builtin.appliesTo kind

def body (builtin : Builtin) (owner : Ref) : Body :=
  match builtin with
  | name => .var (.bound (.ownerName owner))
  | fullName => .var (.derived (.fullName owner) .never)
  | doc => .var (.stored (.text ""))
  | input | next => .list {}
  | beenSaid => .var (.bound (.beenSaid owner))

/-- The member as it is first made; the full name cannot be written. -/
def object (builtin : Builtin) (owner : Ref) : Object where
  name := builtin.memberName
  body := builtin.body owner
  constant := builtin == fullName

end Builtin

namespace World

/-- Enters an object under its name, which the caller knows to be free. -/
def insertMember (world : World) (scope object : Ref) : World :=
  (world.setParent object (some scope)).changeMembers scope (·.insert (world.nameOf object) object)

def claim (world : World) (scope : Ref) (builtin : Builtin) : World :=
  world.changeScope scope fun data => { data with claimed := builtin :: data.claimed }

/-- Makes the built-in member of a name, unless the scope has none or has made it before. -/
def materialize (world : World) (scope : Ref) (name : String) : World :=
  match world.scope? scope, Builtin.ofName? name (world.kindOf scope) with
  | some data, some builtin =>
    if data.claimed.contains builtin then world
    else ((world.claim scope builtin).add (builtin.object scope)).insertMember scope world.heap.size
  | _, _ => world

end World

end Dialogue
