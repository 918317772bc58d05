import Mishap.Json.Basic
import Mishap.Number.Shortest
import Mishap.Text.Digits

/-!
# Writing JSON

Two layouts of one value: `Json.compact` without any blank, and `Json.pretty` with two blanks a
level, one item or member a line, and `[]` and `\x7b\x7d` for empty ones. Inside strings only the
quote, the backslash and the control characters below the blank are escaped.
-/

namespace Mishap.Json

/-- One character inside a string. -/
def escapeChar (c : Char) : List Char :=
  match c with
  | '"' => ['\\', '"']
  | '\\' => ['\\', '\\']
  | '\n' => ['\\', 'n']
  | '\r' => ['\\', 'r']
  | '\t' => ['\\', 't']
  | '\x08' => ['\\', 'b']
  | '\x0c' => ['\\', 'f']
  | c => if c.toNat < 0x20 then ['\\', 'u'] ++ Text.padLeft '0' 4 (Text.hex c.toNat) else [c]

/-- A string with its quotes. -/
def stringChars (s : String) : List Char :=
  '"' :: s.toList.flatMap escapeChar ++ ['"']

/-- The text of a number. -/
def numberChars : Number → List Char
  | .int i => Text.integer i
  | .double x => (FloatStyle.json.write x).toList

mutual

/-- The compact text of a value. -/
def compactChars : Json → List Char
  | .null => "null".toList
  | .bool true => "true".toList
  | .bool false => "false".toList
  | .number n => numberChars n
  | .string s => stringChars s
  | .array xs => '[' :: compactItems xs ++ [']']
  | .object ms => '\x7b' :: compactMembers ms ++ ['\x7d']

/-- Items separated by commas. -/
def compactItems : List Json → List Char
  | [] => []
  | [x] => compactChars x
  | x :: y :: xs => compactChars x ++ ',' :: compactItems (y :: xs)

/-- Members separated by commas. -/
def compactMembers : List (String × Json) → List Char
  | [] => []
  | [(k, x)] => stringChars k ++ ':' :: compactChars x
  | (k, x) :: m :: ms => stringChars k ++ ':' :: compactChars x ++ ',' :: compactMembers (m :: ms)

end

/-- A line end and the blanks of a level. -/
def newline (level : Nat) : List Char := '\n' :: List.replicate (2 * level) ' '

mutual

/-- The pretty text of a value that stands at a level. -/
def prettyChars (level : Nat) : Json → List Char
  | .null => "null".toList
  | .bool true => "true".toList
  | .bool false => "false".toList
  | .number n => numberChars n
  | .string s => stringChars s
  | .array [] => "[]".toList
  | .array (x :: xs) =>
    '[' :: newline (level + 1) ++ prettyChars (level + 1) x ++ prettyItems (level + 1) xs ++
      newline level ++ [']']
  | .object [] => ['\x7b', '\x7d']
  | .object ((k, x) :: ms) =>
    '\x7b' :: newline (level + 1) ++ stringChars k ++ ':' :: ' ' :: prettyChars (level + 1) x ++
      prettyMembers (level + 1) ms ++ newline level ++ ['\x7d']

/-- The items after the first. -/
def prettyItems (level : Nat) : List Json → List Char
  | [] => []
  | x :: xs => ',' :: newline level ++ prettyChars level x ++ prettyItems level xs

/-- The members after the first. -/
def prettyMembers (level : Nat) : List (String × Json) → List Char
  | [] => []
  | (k, x) :: ms =>
    ',' :: newline level ++ stringChars k ++ ':' :: ' ' :: prettyChars level x ++
      prettyMembers level ms

end

/-- The text without blanks. -/
def compact (v : Json) : String := String.ofList v.compactChars

/-- The text with one item or member a line. -/
def pretty (v : Json) : String := String.ofList (v.prettyChars 0)

end Mishap.Json
