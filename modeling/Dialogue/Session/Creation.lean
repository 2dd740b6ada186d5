import Dialogue.Session.Action

/-!
New objects of a session, and objects that steps refer to. What a step uses is kept alive until the
step lets go of it.
-/

namespace Dialogue.Act

def handle (name : String) : Act Ref := do
  match ← see (·.handles.find? name) with
  | some ref => keep ref
  | none => throw (.noHandle name)

/-- Binds a handle and lets go of the object that it was bound to. -/
def bindHandle (name : String) (ref : Ref) : Act Unit := do
  let previous ← see (·.handles.find? name)
  update fun world => { world with handles := world.handles.insert name ref }
  releaseAll previous.toList

def literal (value : Literal) : Act Scalar := do
  liftStop (value.scalar (← see (·.config)))

mutual
def argument : Argument → Act Ref
  | .handle name => handle name
  | .list items => do
    let list ← keep (← add { name := "", body := .list {} })
    pushArguments list items
    return list
  | .plain name => do keep (← add { name, body := .plain })
  | .scope name => do keep (← add { name, body := .scope { role := .bare } })
  | .value value => do keep (← addValue "" (← literal value))

def pushArguments (list : Ref) : List Argument → Act Unit
  | [] => return
  | item :: rest => do
    pushItself list (← argument item)
    pushArguments list rest
end

/-- Puts an object into a list, that list into another one and so on. -/
def nestInLists (object : Ref) : Nat → Act Ref
  | 0 => return object
  | depth + 1 => do
    let list ← add { name := "", body := .list {} }
    pushItself list object
    nestInLists list depth

def settingVariable (name : String) (which : Setting) : Act Ref :=
  add { name, body := .var (.bound (.setting which)) }

/-- A constant that is worked out when it is read. -/
def derivedVariable (name : String) (formula : Formula) (memo : Memo) : Act Ref :=
  add { name, body := .var (.derived formula memo), constant := true }

/-- Stores a body for a position; it replaces an earlier one. -/
def storeScript (position : Position) (body : List Instruction) : Act Unit :=
  update fun world =>
    { world with scripts := ((position.file, position.offset), body) :: world.scripts }

def create (creation : Creation) : Act Ref := do
  match creation with
  | .plain name => add { name, body := .plain }
  | .scope name => add { name, body := .scope { role := .bare } }
  | .list name => add { name, body := .list {} }
  | .pi name => derivedVariable name .pi .empty
  | .value name value => addValue name (← literal value)
  | .cell name value readOnly =>
    add { name, body := .var (.bound (.cell (← literal value) readOnly)), constant := readOnly }
  | .counter name memoized => derivedVariable name (.calls 0) (if memoized then .empty else .never)
  | .setting name which => settingVariable name which
  | .operator name rule => add { name, body := .scope { role := .operator rule } }
  | .block name position context body =>
    let context ← context.mapM handle
    body.forM (storeScript position)
    add { name, body := .scope { role := .block { position, context } } }
  | .nestedLists value depth => nestInLists (← argument value) depth

end Dialogue.Act
