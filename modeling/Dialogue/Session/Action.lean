import Dialogue.Performance
import Dialogue.Scopes.Tour

/-!
Steps of a session: what a host asks of a world. A step may name a handle that it works on and a
handle that keeps its result.
-/

namespace Dialogue

/-- An object as a step refers to it: one that a handle names, or a new one. -/
inductive Argument where
  | handle (name : String)
  | list (items : List Argument)
  | plain (name : String)
  | scope (name : String)
  | value (literal : Literal)
deriving Inhabited

/-- New settings; those that are absent stay as they are. -/
structure SettingsChange where
  strictLists : Option Bool := none
  precision : Option Nat := none
  rounding : Option Rounding := none
  base : Option Nat := none
  maxDigits : Option Nat := none
  verbosity : Option Verbosity := none

inductive SettingsAction where
  | change (change : SettingsChange)
  | read
  | setPrecision (requested : Int)
  | setBase (requested : Int)
  | setStrict (strict : Bool)

inductive Creation where
  | plain (name : String)
  | scope (name : String)
  | list (name : String)
  | pi (name : String)
  | value (name : String) (literal : Literal)
  /-- A variable bound to a cell of the host. -/
  | cell (name : String) (literal : Literal) (readOnly : Bool)
  /-- A variable that counts how often it is worked out. -/
  | counter (name : String) (memoized : Bool)
  | setting (name : String) (which : Setting)
  | operator (name : String) (rule : Rule)
  /-- A block, with a handle for its context and a body to be stored for its position. -/
  | block (name : String) (position : Position) (context : Option String) (body : Option (List Instruction))
  /-- An object inside so many lists. -/
  | nestedLists (value : Argument) (depth : Nat)

/-- What is done to handles, whatever they refer to. -/
inductive HandleAction where
  | drop (name : String)
  /-- Makes a handle that keeps nothing alive, for the object the step works on or for none. -/
  | weak (name : String)
  | upgrade (name : String) (orElse : Option String)
  | showWeak (name : String)

inductive View where
  | object | scope | operator | block | list | var
deriving DecidableEq

inductive ObjectAction where
  | copyHandle
  | isSame (other : String)
  | isTargetOf (weak : String)
  | describe
  | rename (name : String)
  | setConstant (constant : Bool)
  | requireChangeable
  | parent
  | root
  | cast (view : View)
  | text
  | number
  | truth
  | inspect (view : View)
  | tour (tour : Tour)
  | isEmpty

inductive ScopeAction where
  | register (object : Argument)
  | unregister (name : String)
  | clear
  | member (name : String)
  | contains (name : String)
  | members
  | imports
  | importScope (scope : Argument)
  | unimport (scope : Argument)
  | resolve (id : Identifier)
  | tryResolve (id : Identifier)
  | resolves (text : String)
  /-- Registers scopes inside one another whose names count up from zero. -/
  | nestScopes (label : String) (depth : Nat)

inductive ValueAction where
  | read
  | kind
  | assign (value : Literal)
  | assignFrom (source : Argument)
  | duplicate
  | precision
  | setPrecision (requested : Int)
  | precisionVariable
  | binary (operation : BinaryOperation) (right : Argument)
  | unary (operation : UnaryOperation)

inductive ListAction where
  | elements
  | texts
  | resize (size : Int)
  | push (object : Argument)
  | pushItself (object : Argument)
  | pop
  | append (list : Argument)
  | appendThemselves (list : Argument)
  | position (index : Int)
  | get (index : Int)
  | elementAt (position : Nat)
  | replace (index : Int) (object : Argument)
  | remove (index : Int)
  | insert (index : Int)
  | length
  | assign (list : Argument)
  | flatten

inductive OperatorAction where
  | input
  | operate (argument : Argument)

inductive BlockAction where
  | say (text : String)
  | out
  | beenSaid
  | setBeenSaid (said : Bool)
  | next
  | addNext (successor : Argument)
  | successors
  | bookmark

inductive Action where
  | settings (action : SettingsAction)
  | create (creation : Creation)
  | handles (action : HandleAction)
  | object (action : ObjectAction)
  | scope (action : ScopeAction)
  | value (action : ValueAction)
  | list (action : ListAction)
  | operator (action : OperatorAction)
  | block (action : BlockAction)

structure Step where
  action : Action
  target : Option String := none
  name : Option String := none

end Dialogue
