import Dialogue.Text.Quoted
import Dialogue.World.Naming

/-!
Texts that show an object to whoever inspects a session: its kind and fields between braces, or its
full name alone. Texts inside are quoted.
-/

namespace Dialogue

def record (name : String) (fields : List (String × String)) : String :=
  name ++ " \x7b " ++ String.intercalate ", " (fields.map fun field => field.1 ++ ": " ++ field.2) ++ " \x7d"

def Kind.word : Kind → String
  | .plain => "Plain"
  | kind => kind.name

def Position.record (position : Position) : String :=
  Dialogue.record "SourcePos" [
    ("file", "FileId(" ++ toString position.file ++ ")"),
    ("offset", toString position.offset),
    ("line", toString position.line)]

/-- Where a value comes from; of a stored number only its parts are shown. -/
def Storage.word : Storage → String
  | .stored (.text value) => "Str(" ++ Text.quote value ++ ")"
  | .stored (.truth value) => "Bool(" ++ Scalar.truthText value ++ ")"
  | .stored (.number value) => "Num(" ++ toString value.value.mantissa ++ "e" ++ toString value.value.exponent ++ ")"
  | .bound (.cell _ true) => "<native, read-only>"
  | .bound _ => "<native>"
  | .derived .. => "<computed>"

namespace World

def objectRecord (world : World) (ref : Ref) : String :=
  record "Object" [
    ("name", Text.quote (world.nameOf ref)),
    ("kind", (world.kindOf ref).word),
    ("const", Scalar.truthText (world.isConstant ref)),
    ("registered", Scalar.truthText (world.isRegistered ref))]

def scopeRecord (world : World) (ref : Ref) : String := "Scope(" ++ world.objectRecord ref ++ ")"

def operatorRecord (world : World) (ref : Ref) : String :=
  "Operator(" ++ Text.quote (world.fullName ref) ++ ")"

def blockRecord (world : World) (ref : Ref) : String :=
  let block := world.block? ref
  record "Block" [
    ("name", Text.quote (world.fullName ref)),
    ("pos", (block.elim Position.host (·.position)).record),
    ("been_said", Scalar.truthText (block.any (·.beenSaid)))]

def listRecord (world : World) (ref : Ref) : String :=
  record "List" [("name", Text.quote (world.fullName ref)), ("len", toString (world.length ref))]

def variableRecord (world : World) (ref : Ref) : String :=
  record "Variable" [
    ("name", Text.quote (world.fullName ref)),
    ("value", Text.quote ((world.storage? ref).elim "" Storage.word))]

/-- A handle that keeps nothing alive shows the full name of its object while that lives. -/
def weakRecord (world : World) (target : Option Ref) : String :=
  match target.filter world.isLive with
  | some ref => "WeakObj(" ++ world.fullName ref ++ ")"
  | none => "WeakObj(<dropped>)"

end World

end Dialogue
