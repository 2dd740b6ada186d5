import Dialogue.Position
import Dialogue.Scalar
import Dialogue.World.Table

/-!
Objects: what scripts can name. Every object has a name, a mark of constness and, once it is
registered, an owner; its body is that of a bare object, a scope, a variable or a list. Operators and
blocks are scopes that can be run.
-/

namespace Dialogue

/-- The identity of an object. -/
abbrev Ref := Nat

inductive Kind where
  | plain | scope | operator | block | var | list
deriving DecidableEq

namespace Kind

def name : Kind → String
  | plain => "ScopeObject"
  | scope => "Scope"
  | operator => "Operator"
  | block => "Block"
  | var => "Variable"
  | list => "List"

/-- Whether objects of the kind have members. -/
def isScope : Kind → Bool
  | scope | operator | block => true
  | _ => false

end Kind

/-- Members that a scope has without anyone registering them. They are made when first looked up. -/
inductive Builtin where
  | name | fullName | doc | input | next | beenSaid
deriving DecidableEq

/-- What a host operator does with its input. -/
inductive Rule where
  /-- Adds up the elements. -/
  | sum
  | count
  /-- Gives the flattened input. -/
  | echo
  | first
  /-- Gives the input list itself. -/
  | input
  | pop
  /-- Gives the operator itself. -/
  | self
  | fail
deriving DecidableEq

/-- What a block keeps besides its members. -/
structure BlockData where
  /-- Where the body starts. -/
  position : Position
  /-- The scope that the block was defined in, which it does not keep alive. -/
  context : Option Ref
  beenSaid : Bool := false
  /-- What the body has said in the current or the last run. -/
  out : String := ""
deriving DecidableEq

/-- What a scope does when it is operated. -/
inductive Role where
  | bare
  | operator (rule : Rule)
  | block (data : BlockData)
deriving DecidableEq

structure ScopeData where
  role : Role
  members : Table Ref := {}
  /-- Imported scopes in the order of their import; they are not kept alive. -/
  imports : List Ref := []
  /-- The built-in members that have been made. -/
  claimed : List Builtin := []

/-- Settings that variables can be bound to. -/
inductive Setting where
  | precision | strictLists | base
deriving DecidableEq

/-- Something of the host or of another object that a variable reads and writes. What it belongs to
is not kept alive by the variable; the names tell what is missing once it is gone. -/
inductive Binding where
  | cell (value : Scalar) (readOnly : Bool)
  | length (list : Ref) (name : String)
  | precision (target : Ref) (name : String)
  | ownerName (owner : Ref)
  | beenSaid (block : Ref)
  | setting (which : Setting)
deriving DecidableEq

/-- How a value is worked out. -/
inductive Formula where
  | fullName (owner : Ref)
  /-- The flattened list, which the variable keeps alive. -/
  | text (list : Ref)
  /-- How often the value has been worked out. -/
  | calls (count : Nat)
  | pi
deriving DecidableEq

/-- A value kept for the settings under which it was worked out. -/
inductive Memo where
  /-- Every reading works the value out. -/
  | never
  | empty
  | kept (precision : Nat) (rounding : Rounding) (value : Scalar)
deriving DecidableEq

inductive Storage where
  | stored (value : Scalar)
  | bound (binding : Binding)
  | derived (formula : Formula) (memo : Memo)
deriving DecidableEq

/-- A place in a list: it holds its element, or refers to one that lives elsewhere and is known by
the name it had. -/
inductive Slot where
  | held (element : Ref)
  | link (target : Ref) (name : String)
deriving DecidableEq

def Slot.held? : Slot → Option Ref
  | held element => some element
  | link .. => none

structure ListData where
  slots : List Slot := []
  /-- Whether the list is being read, copied or assigned. -/
  busy : Bool := false
deriving DecidableEq

inductive Body where
  | plain
  | scope (data : ScopeData)
  | var (storage : Storage)
  | list (data : ListData)

structure Object where
  name : String
  body : Body
  constant : Bool := false
  parent : Option Ref := none

namespace Object

def kind (object : Object) : Kind :=
  match object.body with
  | .plain => .plain
  | .var _ => .var
  | .list _ => .list
  | .scope data =>
    match data.role with
    | .bare => .scope
    | .operator _ => .operator
    | .block _ => .block

/-- The objects that this one keeps alive. -/
def holds (object : Object) : List Ref :=
  match object.body with
  | .scope data => data.members.values
  | .list data => data.slots.filterMap Slot.held?
  | .var (.derived (.text list) _) => [list]
  | _ => []

end Object

end Dialogue
