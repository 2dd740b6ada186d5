import Dialogue.Lists.Basic
import Dialogue.Scopes.Membership
import Dialogue.Variables.Reading

/-!
Writing values. A stored value is overwritten; a bound variable changes what it is bound to, which
may refuse; a derived value cannot be written. Constants refuse every write.
-/

namespace Dialogue.Act

def setConfig (config : Config) : Act Unit := update ({ · with config })

/-- Refuses to write a variable that has nowhere to write to. -/
def refuseWrite {α : Type} (ref : Ref) : Act α := do
  raise (.constantModified (← see (·.fullName ref)))

def setPrecision (ref : Ref) (requested : Int) (config : Config) : Act Unit := do
  let precision ← lift (Config.checkPrecision requested)
  requireChangeable ref
  match ← see (·.storage? ref) with
  | some (.stored (.number number)) =>
    let number ← compute (number.withPrecision precision config.rounding)
    update (·.setStorage ref (.stored (.number number)))
  | some (.stored _) => raise (.noConversion (← see (·.fullName ref)) Number.kindName)
  | _ => refuseWrite ref

def writeSetting (which : Setting) (value : Scalar) (config : Config) : Act Unit := do
  let current ← see (·.config)
  match which with
  | .precision => setConfig (← lift (current.withPrecision (← compute (value.asInteger config))))
  | .strictLists => setConfig { current with strictLists := ← compute (value.asTruth config) }
  | .base => setConfig (← lift (current.withBase (← compute (value.asInteger config))))

def writeBinding (ref : Ref) (binding : Binding) (value : Scalar) (config : Config) : Act Unit := do
  match binding with
  | .cell _ true => refuseWrite ref
  | .cell _ false => update (·.setStorage ref (.bound (.cell value false)))
  | .length list name =>
    let list ← demand list name
    resize list (← compute (value.asInteger config)) config
  | .precision target name =>
    let target ← demand target name
    setPrecision target (← compute (value.asInteger config)) config
  | .ownerName owner =>
    let owner ← demand owner Builtin.name.memberName
    rename owner (← compute (value.asText config))
  | .beenSaid block =>
    let block ← demand block Builtin.beenSaid.memberName
    let beenSaid ← compute (value.asTruth config)
    update (·.changeBlock block fun data => { data with beenSaid })
  | .setting which => writeSetting which value config

def assign (ref : Ref) (value : Scalar) (config : Config) : Act Unit := do
  requireChangeable ref
  match ← see (·.storage? ref) with
  | some (.stored _) => update (·.setStorage ref (.stored value))
  | some (.bound binding) => writeBinding ref binding value config
  | _ => refuseWrite ref

def assignFrom (ref source : Ref) (config : Config) : Act Unit := do
  assign ref (← value config source) config

/-- A variable that shows the precision of another one and changes it. -/
def precisionVariable (target : Ref) : Act Ref := do
  add { name := "precision", body := .var (.bound (.precision target (← see (·.fullName target)))) }

end Dialogue.Act
