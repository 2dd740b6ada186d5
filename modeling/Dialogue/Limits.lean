/-!
Sizes at which a session stops growing, and the sizes that a host needs to walk nested lists and
scopes on a machine stack.
-/

namespace Dialogue.Limits

/-- The most elements a list may hold, and the most bytes a repeated text may have. -/
def listLength : Nat := 16 * 1024 * 1024

/-- The least integer that 64 signed bits are too few for. -/
def integerBound : Int := 9223372036854775808

/-- The largest precision that 32 bits hold. -/
def precisionMax : Nat := 4294967295

def callDepth : Nat := 16

/-- The bytes of stack that a walk keeps free before it asks for more. -/
def stackReserve : Nat := 128 * 1024

/-- The bytes of stack that it asks for. -/
def stackSegment : Nat := 2 * 1024 * 1024

end Dialogue.Limits
