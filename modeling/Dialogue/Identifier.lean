/-!
Identifiers: names made of segments that are joined by a colon. A leading empty segment makes the
identifier absolute, so that it is looked up from the root.
-/

namespace Dialogue

structure Identifier where
  segments : List String
deriving DecidableEq

namespace Identifier

def separator : Char := ':'

/-- The pieces between separators; there is always one piece more than there are separators. -/
def pieces : List Char → List (List Char)
  | [] => [[]]
  | c :: rest =>
    if c = separator then [] :: pieces rest
    else match pieces rest with
      | [] => [[c]]
      | piece :: more => (c :: piece) :: more

/-- The empty text has no segments; any other text has as many as it has pieces. -/
def parse (text : String) : Identifier :=
  if text.isEmpty then ⟨[]⟩ else ⟨(pieces text.toList).map String.ofList⟩

def join : List String → String
  | [] => ""
  | [segment] => segment
  | segment :: rest => segment ++ separator.toString ++ join rest

def text (id : Identifier) : String := join id.segments

def isEmpty (id : Identifier) : Bool := id.segments.isEmpty

def isAbsolute (id : Identifier) : Bool :=
  match id.segments with
  | first :: _ :: _ => first.isEmpty
  | _ => false

/-- The segments without the mark of an absolute identifier. -/
def relative (id : Identifier) : List String :=
  if id.isAbsolute then id.segments.tail else id.segments

def last? (id : Identifier) : Option String := id.segments.getLast?

def push (id : Identifier) (segment : String) : Identifier := ⟨id.segments ++ [segment]⟩

end Identifier

end Dialogue
