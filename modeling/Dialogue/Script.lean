import Dialogue.Scalar
import Dialogue.Stop

/-!
Scripts: the bodies of blocks. A body is a list of instructions that run in order; the values that
it mentions are read under the settings of the moment.
-/

namespace Dialogue

inductive Literal where
  | text (value : String)
  | truth (value : Bool)
  | integer (value : Int)
  /-- A numeral in the active base. -/
  | numeral (written : String)
  /-- A numeral in base ten with a precision of its own. -/
  | precise (written : String) (precision : Nat)
deriving DecidableEq

def Literal.scalar (literal : Literal) (config : Config) : Except Stop Scalar :=
  match literal with
  | text value => .ok (.text value)
  | truth value => .ok (.truth value)
  | integer value => .ok (.number (.integer value config))
  | numeral written => (Scalar.number <$> Number.parse written config).mapError Stop.ofFailure
  | precise written precision => (do
    let value ← Decimal.parse written
    return Scalar.number (← Number.new value precision config.rounding)).mapError Stop.ofNumeral

inductive Instruction where
  | say (text : String)
  | sayInput
  | sayNamed (identifier : String)
  | sayWhetherSaid
  | fail (identifier : String)
  | set (identifier : String) (value : Literal)
  | next (identifier : String)
  /-- Operates what the identifier names and says the result. -/
  | call (identifier : String) (argument : Literal)
deriving DecidableEq

end Dialogue
