import Dialogue.Variables.Writing

/-!
Objects as variables. A variable is its own view. The view of any other object is a new constant of
the same name: for a list one that keeps the list alive and shows its text, for anything else the
full name at that moment.
-/

namespace Dialogue.Act

variable {α : Type}

def view (ref : Ref) : Act Ref := do
  let name ← see (·.nameOf ref)
  match ← see (·.kindOf ref) with
  | .var => return ref
  | .list => add { name, body := .var (.derived (.text ref) .never), constant := true }
  | _ => add { name, body := .var (.stored (.text (← see (·.fullName ref)))), constant := true }

/-- Runs an act on the view of an object, which lives no longer than the act unless it is kept. -/
def onView (ref : Ref) (act : Ref → Act α) : Act α := do
  let view ← view ref
  holding [view] (act view)

/-- A new variable without a name that has the value of an object. -/
def duplicateValue (config : Config) (ref : Ref) : Act Ref := do
  addValue "" (← value config ref)

/-- The result of an operation in a new variable. The right operand is read first. -/
def binary (operation : BinaryOperation) (left right : Ref) (config : Config) : Act Ref := do
  let right ← value config right
  let left ← value config left
  addValue "" (← compute (Scalar.binary operation left right config))

def unary (operation : UnaryOperation) (ref : Ref) (config : Config) : Act Ref := do
  addValue "" (← compute (Scalar.unary operation (← value config ref) config))

end Dialogue.Act
