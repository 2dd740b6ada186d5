import Dialogue.Anomaly
import Dialogue.Decimal.Numeral

/-!
Why a step of a session has no result. Anomalies belong to the running script, faults end the session,
and the others belong to the request that a host made.
-/

namespace Dialogue

/-- What should not happen to any session. -/
inductive Fault where
  /-- A walk went deeper than the world it walks through. -/
  | exhausted
  /-- A list lost a slot while the slot was being assigned. -/
  | missingSlot
  /-- An operation on integers of 64 bits overflowed. -/
  | overflow
deriving DecidableEq

inductive Stop where
  | anomaly (anomaly : Anomaly)
  | numeral (error : NumeralError)
  | noHandle (name : String)
  | fault (fault : Fault)
deriving DecidableEq

namespace Stop

def ofCause (cause : Cause) : Stop := anomaly { cause }

def ofNumeral : Failure NumeralError → Stop
  | .refused error => numeral error
  | .overflow => fault .overflow

def ofFailure : Failure Cause → Stop
  | .refused cause => ofCause cause
  | .overflow => fault .overflow

/-- Whether the session ends. -/
def isFault : Stop → Bool
  | fault _ => true
  | _ => false

/-- Tells an anomaly where it arose; the other stops have no place in a script. -/
def locate (position : Position) : Stop → Stop
  | anomaly failure => anomaly (failure.locate position)
  | stop => stop

end Stop

end Dialogue
