import Mishap.Text.Digits
import Mishap.Text.Visible

/-!
# Quoted text for diagnostics

A string between double quotes in which nothing is hidden: quotes and backslashes are escaped, the
common controls have a letter, and every other character without an appearance of its own is
written by its code point in braces.
-/

namespace Mishap.Text

/-- One character inside the quotes. -/
def quotedChar (c : Char) : List Char :=
  match c with
  | '\x00' => ['\\', '0']
  | '\t' => ['\\', 't']
  | '\r' => ['\\', 'r']
  | '\n' => ['\\', 'n']
  | '"' => ['\\', '"']
  | '\\' => ['\\', '\\']
  | c => if isVisible c then [c] else ['\\', 'u', '\x7b'] ++ hex c.toNat ++ ['\x7d']

/-- The quoted form of a string. -/
def quoted (s : String) : String :=
  String.ofList (['"'] ++ s.toList.flatMap quotedChar ++ ['"'])

end Mishap.Text
