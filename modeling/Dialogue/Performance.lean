import Dialogue.Lists.Assignment
import Dialogue.Scopes.Resolution
import Dialogue.Variables.View

/-!
Running operators and blocks. An operator binds its argument into its input list and follows the
rule of the host; a block runs its body, which says texts and may run other operators. A block's
result is what this run has said, and no more than so many blocks run inside one another.
-/

namespace Dialogue

def World.positionOf (world : World) (block : Ref) : Position :=
  (world.block? block).elim .host (·.position)

namespace Act

def listMember (scope : Ref) (builtin : Builtin) : Act Ref := do
  match ← member? scope builtin.memberName with
  | none => raise (.notFound (Identifier.join [← see (·.fullName scope), builtin.memberName]))
  | some list =>
    requireList list
    return list

def input (operator : Ref) : Act Ref := listMember operator .input

def nextList (block : Ref) : Act Ref := listMember block .next

/-- Lets the input hold the argument: a list is assigned, anything else becomes the only element. -/
def bindInput (operator argument : Ref) (config : Config) : Act Unit := do
  let input ← input operator
  holding [input] do
    if (← see (·.kindOf argument)) = .list then assignList input argument config
    else
      resize input 0 config
      let _ ← push input argument config

def say (block : Ref) (text : String) : Act Unit :=
  update (·.changeBlock block fun data => { data with out := data.out ++ text })

def addNext (block successor : Ref) : Act Unit := do
  requireBlock successor
  pushAlias (← nextList block) successor

/-- The blocks that may follow, in the order in which they were added. -/
def successors (block : Ref) : Act (List Ref) := do
  let blocks ← elements (← nextList block)
  blocks.forM requireBlock
  return blocks

def sum (elements : List Ref) (config : Config) : Act Scalar :=
  elements.foldlM (fun total element => do
    let number ← numberOf config element
    compute (Scalar.binary .add total (.number number) config)) (.number (.zero config.precision))

/-- What an operator of the host does once its input is bound. -/
def follow (operator : Ref) (rule : Rule) : Act Ref := do
  let config ← see (·.config)
  match rule with
  | .sum => addValue "" (← sum (← elements (← input operator)) config)
  | .count =>
    let input ← input operator
    addValue "" (.number (.integer (← see (·.length input)) config))
  | .echo => addValue "" (.text (← flatten config (← input operator)))
  | .first => get (← input operator) 0 config
  | .input => input operator
  | .pop => pop (← input operator)
  | .self => return operator
  | .fail => raise (.internal ("native failure in " ++ (← see (·.fullName operator))))

/-- Operates an operator or block, where `run` runs the body of a block. -/
def operateWith (run : Ref → Act Unit) (operator argument : Ref) : Act Ref := do
  bindInput operator argument (← see (·.config))
  match ← see (·.role? operator) with
  | some (.operator rule) => follow operator rule
  | _ =>
    update (·.changeBlock operator fun data => { data with out := "" })
    run operator
    update (·.changeBlock operator fun data => { data with beenSaid := true })
    addValue "" (.text ((← see (·.block? operator)).elim "" (·.out)))

/-- The scope in which a body looks for what it calls: the context of the block while that lives,
and otherwise the block itself. -/
def bodyScope (block : Ref) : Act Ref := do
  let context := (← see (·.block? block)).bind (·.context)
  match context with
  | none => return block
  | some context =>
    if ← see (·.isLive context) then
      requireScope context
      return context
    else return block

/-- One instruction of a body, where `operate` operates what it calls. -/
def execute (operate : Ref → Ref → Act Ref) (block scope : Ref) (instruction : Instruction) :
    Act Unit := do
  let config ← see (·.config)
  match instruction with
  | .say text => say block text
  | .sayInput => say block (← flatten config (← input block))
  | .sayNamed identifier => say block (← textOf config (← resolve block (.parse identifier)))
  | .sayWhetherSaid =>
    let said := (← see (·.block? block)).any (·.beenSaid)
    say block (Scalar.truthText said)
  | .fail identifier => raise (.notFound identifier)
  | .set identifier value =>
    let target ← resolve block (.parse identifier)
    let value ← liftStop (value.scalar config)
    onView target fun target => assign target value config
  | .next identifier => addNext block (← resolve scope (.parse identifier))
  | .call identifier argument =>
    let operator ← resolve scope (.parse identifier)
    requireOperator operator
    let argument ← addValue "" (← liftStop (argument.scalar config))
    holding [operator, argument] do
      let result ← operate operator argument
      holding [result] do say block (← textOf config result)

/-- Tells an anomaly that it arose in a block. -/
def located {α : Type} (block : Ref) (act : Act α) : Act α := fun world =>
  let position := world.positionOf block
  match act world with
  | .ok result after => .ok result after
  | .error stop after => .error (stop.locate position) after

/-- Runs the body of a block, inside which so many blocks may still run. -/
def runWithin : Nat → Ref → Act Unit
  | 0, block => located block (raise (.internal "call depth exceeded"))
  | depth + 1, block => located block do
    let body ← see fun world => world.script (world.positionOf block)
    body.forM fun instruction => do
      let scope ← bodyScope block
      holding [scope] (execute (operateWith (runWithin depth)) block scope instruction)

def operate (operator argument : Ref) : Act Ref := do
  operateWith (runWithin Limits.callDepth) operator argument

end Act

end Dialogue
