/-!
Blank characters are those with the Unicode property White_Space, 25 in all. A text is trimmed of
them on both sides before it is read as a number or as a truth value.
-/

namespace Dialogue.Text

/-- Closed ranges of code points, ascending and apart. -/
structure Ranges where
  bounds : List (Nat × Nat)

def Ranges.contains (ranges : Ranges) (c : Char) : Bool :=
  ranges.bounds.any fun bound => bound.1 ≤ c.toNat && c.toNat ≤ bound.2

def blanks : Ranges := ⟨[
  (0x9, 0xD), (0x20, 0x20), (0x85, 0x85), (0xA0, 0xA0), (0x1680, 0x1680), (0x2000, 0x200A), (0x2028, 0x2029),
  (0x202F, 0x202F), (0x205F, 0x205F), (0x3000, 0x3000)]⟩

def isBlank (c : Char) : Bool := blanks.contains c

/-- The text without the blanks at either end. -/
def trimmed (text : List Char) : List Char :=
  ((text.dropWhile isBlank).reverse.dropWhile isBlank).reverse

def trim (text : String) : String := String.ofList (trimmed text.toList)

/-- Equality up to the case of ASCII letters; no other letter has a second case here. -/
def sameIgnoringCase (first second : String) : Bool :=
  first.toList.map Char.toLower == second.toList.map Char.toLower

end Dialogue.Text
