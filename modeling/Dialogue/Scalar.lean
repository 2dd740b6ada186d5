import Dialogue.Limits
import Dialogue.Number
import Dialogue.Operation

/-!
Scalars: numbers, texts and truth values. Each can be read as the others, and a binary operation
reads its right operand as the kind of the left one.
-/

namespace Dialogue

inductive Scalar where
  | number (value : Number)
  | text (value : String)
  | truth (value : Bool)
deriving DecidableEq

namespace Scalar

inductive Kind where
  | number | text | truth
deriving DecidableEq

def Kind.name : Kind → String
  | number => Number.kindName
  | text => "String"
  | truth => "Bool"

def kind : Scalar → Kind
  | number _ => .number
  | text _ => .text
  | truth _ => .truth

def truthText (value : Bool) : String := if value then "true" else "false"

def asText (scalar : Scalar) (config : Config) : Except (Failure Cause) String :=
  match scalar with
  | number value => value.text config
  | text value => .ok value
  | truth value => .ok (truthText value)

def asNumber (scalar : Scalar) (config : Config) : Except (Failure Cause) Number :=
  match scalar with
  | number value => .ok value
  | text value => Number.parse value config
  | truth value => .ok (.ofBool value config)

/-- Whether a text is blank, the word `false` in any case, or a zero in the active base. -/
def saysFalse (text : String) (config : Config) : Except (Failure Cause) Bool :=
  let trimmed := Text.trim text
  if trimmed.isEmpty || Text.sameIgnoringCase trimmed "false" then .ok true
  else
    match Number.parse trimmed config with
    | .ok value => .ok value.isZero
    | .error (.refused _) => .ok false
    | .error .overflow => .error .overflow

def asTruth (scalar : Scalar) (config : Config) : Except (Failure Cause) Bool :=
  match scalar with
  | number value => .ok !value.isZero
  | text value => (!·) <$> saysFalse value config
  | truth value => .ok value

/-- The truncated integer value; beyond 64 bits it ends at the bound on its side. -/
def asInteger (scalar : Scalar) (config : Config) : Except (Failure Cause) Int := do
  return (← scalar.asNumber config).toInt

/-- A text repeated; nothing repeated any number of times is nothing. -/
def repeated (text : String) (count : Nat) : String :=
  if text.isEmpty then "" else Nat.fold count (fun _ _ built => built ++ text) ""

/-- The count of a repetition, if it is not negative and the repeated text stays within the limit. -/
def repetitions? (text : String) (count : Number) : Option Nat := do
  let count ← count.value.toInt64?
  if 0 ≤ count ∧ text.utf8ByteSize * count.toNat ≤ Limits.listLength then some count.toNat else none

def numeric (operation : BinaryOperation) (a b : Number) (config : Config) : Except (Failure Cause) Scalar :=
  let compute (rule : Decimal → Decimal → Nat → Rounding → Except (Failure ArithmeticError) Decimal) :=
    Scalar.number <$> Number.arithmetic rule operation.symbol a b config
  let rounding (rule : Decimal → Decimal → Nat → Rounding → Except ArithmeticError Decimal) :=
    compute fun a b precision mode => Failure.refusing (rule a b precision mode)
  match operation with
  | .add => rounding Decimal.add
  | .sub => rounding Decimal.sub
  | .mul => rounding Decimal.mul
  | .div => rounding Decimal.div
  | .rem => compute fun a b _ _ => a.rem b
  | _ => .ok (truth (operation.holds (a.value.cmp b.value)))

/-- Texts are joined, repeated and compared; other arithmetic does not apply to them. -/
def textual (operation : BinaryOperation) (a : String) (b : Scalar) (config : Config) :
    Except (Failure Cause) Scalar :=
  let refused := Failure.refused (Cause.invalidOperation operation.symbol Kind.text.name)
  match operation with
  | .add => do return text (a ++ (← b.asText config))
  | .mul => do
    match repetitions? a (← b.asNumber config) with
    | some count => .ok (text (repeated a count))
    | none => .error refused
  | .sub | .div | .rem => .error refused
  | _ => do return truth (operation.holds (compare a (← b.asText config)))

/-- Truth values count as zero and one in arithmetic, and falsehood comes before truth. -/
def logical (operation : BinaryOperation) (a : Bool) (b : Scalar) (config : Config) :
    Except (Failure Cause) Scalar :=
  if operation.isArithmetic then do numeric operation (.ofBool a config) (← b.asNumber config) config
  else do return truth (operation.holds (compare a (← b.asTruth config)))

/-- The right operand of a conjunction or disjunction is read only where it decides. -/
def both (a b : Scalar) (config : Config) : Except (Failure Cause) Bool := do
  if ← a.asTruth config then b.asTruth config else return false

def either (a b : Scalar) (config : Config) : Except (Failure Cause) Bool := do
  if ← a.asTruth config then return true else b.asTruth config

def binary (operation : BinaryOperation) (a b : Scalar) (config : Config) : Except (Failure Cause) Scalar :=
  match operation with
  | .and => truth <$> both a b config
  | .or => truth <$> either a b config
  | _ =>
    match a with
    | number value => do numeric operation value (← b.asNumber config) config
    | text value => textual operation value b config
    | truth value => logical operation value b config

def unary (operation : UnaryOperation) (scalar : Scalar) (config : Config) : Except (Failure Cause) Scalar :=
  match operation, scalar with
  | .not, _ => do return truth !(← scalar.asTruth config)
  | .neg, number value => .ok (number value.neg)
  | .neg, truth value => .ok (number (Number.ofBool value config).neg)
  | .neg, text _ => .error (.refused (.invalidOperation operation.symbol Kind.text.name))

end Scalar

end Dialogue
