import Dialogue.Position

/-!
Anomalies: the failures of a running script. An anomaly has a cause, whose data its message is made
of, and the position that was running once that is known.
-/

namespace Dialogue

inductive Cause where
  | alreadyExists (name scope : String)
  | notFound (identifier : String)
  | notImported (name : String)
  | ownershipCycle (name : String)
  | constantModified (name : String)
  | noConversion (name target : String)
  | listTooBig (requested : Int) (limit : Nat)
  | noElement (index : Int) (length : Nat)
  | badPrecision (requested : Int)
  | badBase (requested : Int)
  | divisionByZero
  /-- The result of an operator leaves the range of numbers. -/
  | outOfRange (symbol : String)
  | invalidOperation (symbol kind : String)
  /-- A fault of the host and never of a script. -/
  | internal (text : String)
deriving DecidableEq

namespace Cause

def named (name : String) : String := "'" ++ name ++ "'"

def marked (symbol : String) : String := "`" ++ symbol ++ "`"

def message : Cause → String
  | alreadyExists name scope =>
    if scope.isEmpty then named name ++ " already exists"
    else named name ++ " already exists in " ++ named scope
  | notFound identifier => "identifier not found: " ++ identifier
  | notImported name => named name ++ " was never imported"
  | ownershipCycle name => named name ++ " cannot be registered inside itself"
  | constantModified name => "cannot modify constant " ++ named name
  | noConversion name target => named name ++ " cannot be converted to " ++ target
  | listTooBig requested limit => "list size " ++ toString requested ++ " outside 0..=" ++ toString limit
  | noElement index length =>
    "no element at index " ++ toString index ++ " (length " ++ toString length ++ ")"
  | badPrecision requested => "invalid precision: " ++ toString requested
  | badBase requested => "invalid numeric base: " ++ toString requested
  | divisionByZero => "division by zero"
  | outOfRange symbol => "result of " ++ marked symbol ++ " is out of range"
  | invalidOperation symbol kind => "operator " ++ marked symbol ++ " cannot be applied to " ++ kind
  | internal text => "internal error: " ++ text

def isInternal : Cause → Bool
  | internal _ => true
  | _ => false

end Cause

structure Anomaly where
  cause : Cause
  position : Option Position := none
deriving DecidableEq

namespace Anomaly

def text (anomaly : Anomaly) : String :=
  match anomaly.position with
  | none => anomaly.cause.message
  | some position => anomaly.cause.message ++ " at " ++ position.text

/-- Attaches a position unless one is attached already, so that the innermost position stays. -/
def locate (anomaly : Anomaly) (position : Position) : Anomaly :=
  { anomaly with position := anomaly.position.or (some position) }

end Anomaly

end Dialogue
