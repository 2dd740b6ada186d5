/-!
The operations of expressions and their symbols.
-/

namespace Dialogue

inductive BinaryOperation where
  | add | sub | mul | div | rem
  | eq | notEq | lt | ltEq | gt | gtEq
  | and | or
deriving DecidableEq

namespace BinaryOperation

def all : List BinaryOperation :=
  [add, sub, mul, div, rem, eq, notEq, lt, ltEq, gt, gtEq, and, or]

def symbol : BinaryOperation → String
  | add => "+"
  | sub => "-"
  | mul => "*"
  | div => "/"
  | rem => "%"
  | eq => "=="
  | notEq => "!="
  | lt => "<"
  | ltEq => "<="
  | gt => ">"
  | gtEq => ">="
  | and => "and"
  | or => "or"

def isArithmetic : BinaryOperation → Bool
  | add | sub | mul | div | rem => true
  | _ => false

def isComparison : BinaryOperation → Bool
  | eq | notEq | lt | ltEq | gt | gtEq => true
  | _ => false

def ofSymbol? (symbol : String) : Option BinaryOperation :=
  all.find? fun operation => operation.symbol == symbol

/-- Whether a comparison holds of two values that stand in the given order; other operations hold of none. -/
def holds (operation : BinaryOperation) (order : Ordering) : Bool :=
  match operation with
  | eq => order == .eq
  | notEq => order != .eq
  | lt => order == .lt
  | ltEq => order != .gt
  | gt => order == .gt
  | gtEq => order != .lt
  | _ => false

end BinaryOperation

inductive UnaryOperation where
  | neg | not
deriving DecidableEq

namespace UnaryOperation

def symbol : UnaryOperation → String
  | neg => "-"
  | not => "not"

def ofSymbol? (symbol : String) : Option UnaryOperation :=
  [neg, not].find? fun operation => operation.symbol == symbol

end UnaryOperation

end Dialogue
