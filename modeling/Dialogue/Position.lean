/-!
Positions in script files. Files are known by number; the largest 32-bit number stands for the host,
for objects that no script defines.
-/

namespace Dialogue

structure Position where
  file : Nat
  offset : Nat
  line : Nat
deriving DecidableEq

namespace Position

def hostFile : Nat := 4294967295

def host : Position := ⟨hostFile, 0, 0⟩

def origin : Position := ⟨0, 0, 0⟩

def isHost (position : Position) : Bool := position.file == hostFile

def fileText (position : Position) : String :=
  if position.isHost then "<host>" else "file#" ++ toString position.file

def text (position : Position) : String := position.fileText ++ ":" ++ toString position.line

end Position

end Dialogue
