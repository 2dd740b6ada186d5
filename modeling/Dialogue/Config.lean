import Dialogue.Anomaly
import Dialogue.Decimal.Rounding

/-!
Settings: how numbers are read, rounded and written, and whether lists grow on demand. Scripts can
change the precision and the base only to supported values.
-/

namespace Dialogue

/-- How much is reported about a running script. -/
inductive Verbosity where
  | silent | normal | verbose | debug
deriving DecidableEq

namespace Verbosity

def all : List Verbosity := [silent, normal, verbose, debug]

def name : Verbosity → String
  | silent => "Silent"
  | normal => "Normal"
  | verbose => "Verbose"
  | debug => "Debug"

def ofName? (name : String) : Option Verbosity := all.find? fun verbosity => verbosity.name == name

/-- The least severe reports that are shown. -/
def level : Verbosity → String
  | silent => "off"
  | normal => "warn"
  | verbose => "info"
  | debug => "debug"

end Verbosity

structure Config where
  /-- Whether an index past the end of a list is refused instead of making the list grow. -/
  strictLists : Bool := false
  /-- Significant digits of new numbers. -/
  precision : Nat := 24
  rounding : Rounding := .halfEven
  /-- The base in which numbers are read. -/
  base : Nat := 10
  /-- The digits that a number may take before it is written in scientific notation. -/
  maxDigits : Nat := 30
  verbosity : Verbosity := .normal
deriving DecidableEq

namespace Config

def minPrecision : Nat := 1

def maxPrecision : Nat := 10000

def minBase : Nat := 2

def maxBase : Nat := 36

def strict : Config := { strictLists := true }

def checkPrecision (requested : Int) : Except Cause Nat :=
  if minPrecision ≤ requested ∧ requested ≤ maxPrecision then .ok requested.toNat
  else .error (.badPrecision requested)

def checkBase (requested : Int) : Except Cause Nat :=
  if minBase ≤ requested ∧ requested ≤ maxBase then .ok requested.toNat
  else .error (.badBase requested)

def withPrecision (config : Config) (requested : Int) : Except Cause Config := do
  return { config with precision := ← checkPrecision requested }

def withBase (config : Config) (requested : Int) : Except Cause Config := do
  return { config with base := ← checkBase requested }

end Config

end Dialogue
