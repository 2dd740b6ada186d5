import Dialogue.Decimal.Pi
import Dialogue.Scopes.Builtin

/-!
Reading values. Every object has a value: a variable its own, a list the texts of its elements
joined, anything else its full name. A list that is met again while it is being read contributes
nothing, which ends every reading.
-/

namespace Dialogue

namespace Memo

/-- The value kept for these settings. -/
def recalled? (memo : Memo) (config : Config) : Option Scalar :=
  match memo with
  | kept precision rounding value =>
    if precision = config.precision ∧ rounding = config.rounding then some value else none
  | _ => none

/-- The memo once a value has been worked out. -/
def remember (memo : Memo) (value : Scalar) (config : Config) : Memo :=
  match memo with
  | never => never
  | _ => kept config.precision config.rounding value

end Memo

/-- The storage of a variable once its value has been worked out. -/
def Storage.evaluated (storage : Storage) (value : Scalar) (config : Config) : Storage :=
  match storage with
  | derived (.calls count) memo => derived (.calls (count + 1)) (memo.remember value config)
  | derived formula memo => derived formula (memo.remember value config)
  | other => other

/-- The precision of a number, and the active one for anything else. -/
def Scalar.precision (scalar : Scalar) (config : Config) : Nat :=
  match scalar with
  | number value => value.precision
  | _ => config.precision

namespace World

def evaluate (world : World) (ref : Ref) (value : Scalar) (config : Config) : World :=
  match world.storage? ref with
  | some storage => world.setStorage ref (storage.evaluated value config)
  | none => world

/-- A reading marks a list busy before it goes deeper, and what it reads on the way from one list to
the next was made before what reads it. -/
def readingFuel (world : World) : Nat := (world.heap.size + 1) * (world.heap.size + 1) + 1

end World

namespace Act

variable {α : Type}

/-- Marks a list busy for as long as an act runs. -/
def whileBusy (list : Ref) (act : Act α) : Act α := fun world =>
  match act (world.setBusy list true) with
  | .ok result after => .ok result (after.setBusy list false)
  | .error stop after => .error stop (after.setBusy list false)

def flattenWith (read : Ref → Act Scalar) (config : Config) (list : Ref) : Act String := do
  if ← see (·.isBusy list) then return ""
  whileBusy list do
    (← see (·.slots list)).foldlM (fun text slot => do
      return text ++ (← compute ((← read (← element slot)).asText config))) ""

def readSetting (which : Setting) (config : Config) : Act Scalar := do
  let current ← see (·.config)
  match which with
  | .precision => return .number (.integer current.precision config)
  | .strictLists => return .truth current.strictLists
  | .base => return .number (.integer current.base config)

def readBinding (read : Ref → Act Scalar) (config : Config) (binding : Binding) : Act Scalar := do
  match binding with
  | .cell value _ => return value
  | .length list name =>
    let list ← demand list name
    return .number (.integer (← see (·.length list)) config)
  | .precision target name =>
    let value ← read (← demand target name)
    return .number (.integer (value.precision config) config)
  | .ownerName owner =>
    let owner ← demand owner Builtin.name.memberName
    return .text (← see (·.nameOf owner))
  | .beenSaid block =>
    let block ← demand block Builtin.beenSaid.memberName
    return .truth ((← see (·.block? block)).any (·.beenSaid))
  | .setting which => readSetting which config

def readFormula (read : Ref → Act Scalar) (config : Config) (formula : Formula) : Act Scalar := do
  match formula with
  | .fullName owner =>
    let owner ← demand owner Builtin.fullName.memberName
    return .text (← see (·.fullName owner))
  | .text list => return .text (← flattenWith read config list)
  | .calls count => return .number (.integer (min (count + 1 : Nat) (Limits.integerBound - 1)) config)
  | .pi => return .number (.rounded (.pi config.precision) config.precision config.rounding)

/-- The value of an object, where `read` gives the values of the objects it depends on. -/
def valueWith (read : Ref → Act Scalar) (config : Config) (ref : Ref) : Act Scalar := do
  match ← see (·.body? ref) with
  | some (.var (.stored value)) => return value
  | some (.var (.bound binding)) => readBinding read config binding
  | some (.var (.derived formula memo)) =>
    match memo.recalled? config with
    | some value => return value
    | none =>
      let value ← readFormula read config formula
      update (·.evaluate ref value config)
      return value
  | some (.list _) => return .text (← flattenWith read config ref)
  | _ => return .text (← see (·.fullName ref))

def valueWithin : Nat → Config → Ref → Act Scalar
  | 0, _, _ => throw (.fault .exhausted)
  | fuel + 1, config, ref => valueWith (valueWithin fuel config) config ref

def value (config : Config) (ref : Ref) : Act Scalar := do
  valueWithin (← see (·.readingFuel)) config ref

def flatten (config : Config) (list : Ref) : Act String := flattenWith (value config) config list

def textOf (config : Config) (ref : Ref) : Act String := do
  compute ((← value config ref).asText config)

def numberOf (config : Config) (ref : Ref) : Act Number := do
  compute ((← value config ref).asNumber config)

def truthOf (config : Config) (ref : Ref) : Act Bool := do
  compute ((← value config ref).asTruth config)

end Act

end Dialogue
