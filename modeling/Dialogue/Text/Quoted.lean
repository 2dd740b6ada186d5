import Dialogue.Text.Printable

/-!
Quoted characters and texts. The delimiter and the backslash are written behind a backslash, five
controls have a letter of their own, and whatever does not print, or would attach to the character
before it, is written as its code in hexadecimal.
-/

namespace Dialogue.Text

/-- The code of a character in hexadecimal, between braces. -/
def codeEscape (c : Char) : List Char :=
  ['\\', 'u', '{'] ++ Nat.toDigits 16 c.toNat ++ ['}']

/-- How a character is written between two delimiters. -/
def escaped (delimiter c : Char) : List Char :=
  match c with
  | '\x00' => ['\\', '0']
  | '\t' => ['\\', 't']
  | '\r' => ['\\', 'r']
  | '\n' => ['\\', 'n']
  | '\\' => ['\\', '\\']
  | _ =>
    if c = delimiter then ['\\', c]
    else if isExtender c || !isPrintable c then codeEscape c
    else [c]

def quoteWith (delimiter : Char) (text : List Char) : String :=
  String.ofList (delimiter :: text.flatMap (escaped delimiter) ++ [delimiter])

def quoteChar (c : Char) : String := quoteWith '\'' [c]

def quote (text : String) : String := quoteWith '"' text.toList

end Dialogue.Text
