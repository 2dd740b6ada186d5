import Dialogue.Limits

/-!
Evaluations on a machine. An evaluation may be refused for a reason of its own. Its integers have 64
bits, and one that takes more of them overflows, which ends the session.
-/

namespace Dialogue

/-- Why an evaluation has no value. -/
inductive Failure (ε : Type) where
  | refused (reason : ε)
  | overflow
deriving DecidableEq

namespace Failure

variable {ε δ α : Type}

def map (change : ε → δ) : Failure ε → Failure δ
  | refused reason => refused (change reason)
  | overflow => overflow

/-- The outcome of an evaluation in which nothing overflows. -/
def refusing (outcome : Except ε α) : Except (Failure ε) α := outcome.mapError refused

end Failure

namespace Machine

/-- Whether 64 signed bits hold an integer. -/
def Holds (n : Int) : Prop := -Limits.integerBound ≤ n ∧ n < Limits.integerBound

instance (n : Int) : Decidable (Holds n) := inferInstanceAs (Decidable (_ ∧ _))

/-- The result of an operation on integers of 64 bits. -/
def integer {ε : Type} (n : Int) : Except (Failure ε) Int :=
  if Holds n then .ok n else .error .overflow

end Machine

end Dialogue
