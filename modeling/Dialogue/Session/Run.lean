import Dialogue.Session.Answer
import Dialogue.Session.Creation

/-!
Running the steps of a session one after the other. A step that fails changes what it had changed
until then and does not keep the next ones from running, unless a fault ends the session.
-/

namespace Dialogue

namespace SettingsChange

def apply (change : SettingsChange) (config : Config) : Config where
  strictLists := change.strictLists.getD config.strictLists
  precision := change.precision.getD config.precision
  rounding := change.rounding.getD config.rounding
  base := change.base.getD config.base
  maxDigits := change.maxDigits.getD config.maxDigits
  verbosity := change.verbosity.getD config.verbosity

end SettingsChange

namespace World

/-- The object that a handle which keeps nothing alive refers to, while that lives. -/
def upgrade? (world : World) (name : String) : Option Ref :=
  (world.weakHandles.find? name).join.filter world.isLive

def inspect (world : World) (view : View) (ref : Ref) : String :=
  match view with
  | .object => world.objectRecord ref
  | .scope => world.scopeRecord ref
  | .operator => world.operatorRecord ref
  | .block => world.blockRecord ref
  | .list => world.listRecord ref
  | .var => world.variableRecord ref

end World

namespace Act

/-- The object as it is seen in a view, which it may not have. -/
def look (through : View) (ref : Ref) : Act Ref := do
  match through with
  | .object => return ref
  | .var => view ref
  | .scope => requireScope ref; return ref
  | .operator => requireOperator ref; return ref
  | .block => requireBlock ref; return ref
  | .list => requireList ref; return ref

def done (act : Act Unit) : Act (Outcome Ref) := do
  act
  return .nothing

def resulting (act : Act Ref) : Act (Outcome Ref) := .object <$> act

def performSettings (action : SettingsAction) : Act (Outcome Ref) := do
  let config ← see (·.config)
  match action with
  | .change change => done (setConfig (change.apply config))
  | .read => return .settings config
  | .setPrecision requested => done do setConfig (← lift (config.withPrecision requested))
  | .setBase requested => done do setConfig (← lift (config.withBase requested))
  | .setStrict strictLists => done (setConfig { config with strictLists })

def performHandles (target : Option String) (action : HandleAction) : Act (Outcome Ref) := do
  match action with
  | .drop name =>
    match ← see (·.handles.find? name) with
    | none => return .flag false
    | some ref =>
      update fun world => { world with handles := world.handles.erase name }
      release ref
      return .flag true
  | .weak name => done do
    let ref ← target.mapM handle
    update fun world => { world with weakHandles := world.weakHandles.insert name ref }
  | .upgrade name none => return .ofOption (← see (·.upgrade? name))
  | .upgrade name (some missing) =>
    match ← see (·.upgrade? name) with
    | some ref => return .object ref
    | none => raise (.notFound missing)
  | .showWeak name => return .text (← see fun world => world.weakRecord (world.upgrade? name))

def performObject (ref : Ref) (action : ObjectAction) : Act (Outcome Ref) := do
  let config ← see (·.config)
  match action with
  | .copyHandle => return .object ref
  | .isSame other => return .flag (ref == (← handle other))
  | .isTargetOf weak =>
    let found ← see (·.upgrade? weak)
    return .pointing (found == some ref) (← see (·.weakRecord found))
  | .describe => return .described ref (← see (·.kindOf ref)).isScope
  | .rename name => done (rename ref name)
  | .setConstant constant => done (update (·.setConstant ref constant))
  | .requireChangeable => done (requireChangeable ref)
  | .parent => return .ofOption (← see (·.parent? ref))
  | .root => return .object (← see (·.root ref))
  | .cast view => resulting (look view ref)
  | .text => return .text (← textOf config ref)
  | .number => return .number (← numberOf config ref) config
  | .truth => return .flag (← truthOf config ref)
  | .inspect view =>
    let shown ← look view ref
    let text ← see (·.inspect view shown)
    release shown
    return .text text
  | .tour tour => return .tour (← see (·.tour tour ref))
  | .isEmpty =>
    unless (← see (·.kindOf ref)) = .list do requireScope ref
    return .flag ((← see (·.extent? ref)) == some 0)

def nestInScopes (scope : Ref) (label : String) (depth : Nat) : Act Ref :=
  (List.range depth).foldlM (fun scope index => do
    let inner ← keep (← add { name := label ++ toString index, body := .scope { role := .bare } })
    register scope inner
    return inner) scope

def performScope (scope : Ref) (action : ScopeAction) : Act (Outcome Ref) := do
  match action with
  | .register object =>
    let object ← argument object
    register scope object
    return .object object
  | .unregister name => resulting (unregister scope name)
  | .clear => done (clear scope)
  | .member name => return .ofOption (← member? scope name)
  | .contains name => return .flag (← hasMember scope name)
  | .members => return .objects (← see fun world => (world.members scope).values)
  | .imports => return .objects (← see fun world => (world.imports scope).filter world.isLive)
  | .importScope imported => done do importScope scope (← argument imported)
  | .unimport imported => done do unimport scope (← argument imported)
  | .resolve id => resulting (resolve scope id)
  | .tryResolve id => return .ofOption (← tryResolve scope id)
  | .resolves text => return .flag (← resolves scope text)
  | .nestScopes label depth => resulting (nestInScopes scope label depth)

def performValue (ref : Ref) (action : ValueAction) : Act (Outcome Ref) := do
  let config ← see (·.config)
  match action with
  | .read => return .scalar (← value config ref) config
  | .kind => return .text (← value config ref).kind.name
  | .assign value => onView ref fun view => done do assign view (← literal value) config
  | .assignFrom source => onView ref fun view => done do assignFrom view (← argument source) config
  | .duplicate =>
    if (← see (·.kindOf ref)) = .list then resulting (duplicateList config ref)
    else resulting (duplicateValue config ref)
  | .precision => return .integer ((← value config ref).precision config)
  | .setPrecision requested => onView ref fun view => done (setPrecision view requested config)
  | .precisionVariable => onView ref fun view => resulting (precisionVariable view)
  | .binary operation right => resulting do binary operation ref (← argument right) config
  | .unary operation => resulting (unary operation ref config)

def performList (list : Ref) (action : ListAction) : Act (Outcome Ref) := do
  let config ← see (·.config)
  match action with
  | .elements => return .objects (← elements list)
  | .texts => return .texts (← (← elements list).mapM (textOf config))
  | .resize size => done (resize list size config)
  | .push object => resulting do push list (← argument object) config
  | .pushItself object => done do pushItself list (← argument object)
  | .pop => resulting (pop list)
  | .append other => done do
    let other ← argument other
    requireList other
    append list other config
  | .appendThemselves other => done do
    let other ← argument other
    requireList other
    appendThemselves list other
  | .position index => return .integer (← position list index config)
  | .get index => resulting (get list index config)
  | .elementAt position => resulting (elementAt list position)
  | .replace index object => resulting do replace list index (← argument object) config
  | .remove index => resulting (remove list index config)
  | .insert index => resulting (insert list index config)
  | .length => resulting (lengthVariable list)
  | .assign other => done do
    let other ← argument other
    requireList other
    assignList list other config
  | .flatten => return .text (← flatten config list)

def performOperator (operator : Ref) (action : OperatorAction) : Act (Outcome Ref) := do
  match action with
  | .input => resulting (input operator)
  | .operate object => resulting do operate operator (← argument object)

def performBlock (block : Ref) (action : BlockAction) : Act (Outcome Ref) := do
  match action with
  | .say text => done (say block text)
  | .out => return .text ((← see (·.block? block)).elim "" (·.out))
  | .beenSaid => return .flag ((← see (·.block? block)).any (·.beenSaid))
  | .setBeenSaid beenSaid => done (update (·.changeBlock block ({ · with beenSaid })))
  | .next => resulting (nextList block)
  | .addNext successor => done do addNext block (← argument successor)
  | .successors => return .objects (← successors block)
  | .bookmark =>
    let context ← see fun world => ((world.block? block).bind (·.context)).filter world.isLive
    return .bookmark (← see (·.positionOf block)) context

/-- The object that a step works on, as the step needs to see it. -/
def targeted (target : Option String) (through : View) (act : Ref → Act (Outcome Ref)) :
    Act (Outcome Ref) := do
  let ref ← handle (target.getD "")
  act (← look through ref)

def perform (target : Option String) (action : Action) : Act (Outcome Ref) := do
  match action with
  | .settings action => performSettings action
  | .create creation => resulting (create creation)
  | .handles action => performHandles target action
  | .object action => targeted target .object (performObject · action)
  | .scope action => targeted target .scope (performScope · action)
  | .value action => targeted target .object (performValue · action)
  | .list action => targeted target .list (performList · action)
  | .operator action => targeted target .operator (performOperator · action)
  | .block action => targeted target .block (performBlock · action)

/-- Performs a step, binds an object that results, and only then describes what has come of it. -/
def answerStep (step : Step) : Act (Outcome Description) :=
  lettingGo (fun _ => []) do
    let outcome ← lettingGo Outcome.refs (perform step.target step.action)
    match step.name, outcome with
    | some name, .object ref => bindHandle name ref
    | _, _ => pure ()
    outcome.mapM describe

end Act

namespace World

/-- Runs a step; the extent of its target is taken from the world that the step leaves. -/
def run (world : World) (step : Step) : Answer × World :=
  let extent (after : World) := do after.extent? (← after.handles.find? (← step.target))
  match Act.answerStep step world with
  | .ok outcome after => (⟨.ok outcome, extent after⟩, after)
  | .error stop after => (⟨.error stop, extent after⟩, after)

def runAll : World → List Step → List Answer × World
  | world, [] => ([], world)
  | world, step :: rest =>
    let (answer, next) := world.run step
    if answer.ends then ([answer], next)
    else
      let (answers, last) := next.runAll rest
      (answer :: answers, last)

end World

end Dialogue
