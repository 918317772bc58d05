import Mishap.Log.Pattern.Mode
import Mishap.Text.Digits

/-!
# Escapes in patterns

What a backslash and the characters behind it stand for. Escapes that need braces, references to
groups and the properties of characters are not known.
-/

namespace Mishap.Pattern

/-- What an escape stands for. -/
inductive Escape where
  /-- A character. -/
  | literal (c : Char)
  /-- A byte, written in two hexadecimal digits. -/
  | byte (c : Char)
  /-- The digits, the blanks or the letters, or all but them. -/
  | named (isNegated : Bool)
  /-- A place between characters, maybe at the beginning or the end of a word. -/
  | place (isWord : Bool)
  deriving DecidableEq, Repr

/-- The number written in some hexadecimal digits, going on from one that is given. -/
def coded? (m : Mode) : Nat → Nat → List Char → Option (Nat × List Char)
  | 0, code, s => some (code, s)
  | n + 1, code, s =>
    match m.skip s with
    | c :: t => do coded? m n (16 * code + (← Text.hexValue? c)) t
    | [] => none

/-- The character whose code is written in some hexadecimal digits. -/
def codedCharacter? (m : Mode) (digits : Nat) (s : List Char) : Option (Char × List Char) := do
  let (code, t) ← coded? m digits 0 s
  if code.isValidChar then some (Char.ofNat code, t) else none

/-- Reads an escape after its backslash. All signs of ASCII stand for themselves but the angle
brackets, which are the two ends of a word. -/
def Escape.read? (m : Mode) : List Char → Option (Escape × List Char)
  | 'x' :: s => (codedCharacter? m 2 s).map fun (c, t) => (.byte c, t)
  | 'u' :: s => (codedCharacter? m 4 s).map fun (c, t) => (.literal c, t)
  | 'U' :: s => (codedCharacter? m 8 s).map fun (c, t) => (.literal c, t)
  | 'a' :: s => some (.literal '\x07', s)
  | 'f' :: s => some (.literal '\x0c', s)
  | 'n' :: s => some (.literal '\n', s)
  | 'r' :: s => some (.literal '\r', s)
  | 't' :: s => some (.literal '\t', s)
  | 'v' :: s => some (.literal '\x0b', s)
  | 'd' :: s | 's' :: s | 'w' :: s => some (.named false, s)
  | 'D' :: s | 'S' :: s | 'W' :: s => some (.named true, s)
  | 'A' :: s | 'z' :: s => some (.place false, s)
  | 'b' :: s | 'B' :: s | '<' :: s | '>' :: s => some (.place true, s)
  | c :: s => if c.isAlphanum || 0x80 ≤ c.toNat then none else some (.literal c, s)
  | [] => none

/-- The character that an escape stands for. -/
def Escape.character? : Escape → Option Char
  | .literal c | .byte c => some c
  | .named _ | .place _ => none

/-- An escape may stand outside of classes. -/
def Escape.isAllowed (m : Mode) : Escape → Bool
  | .literal _ => m.allowsLiteral
  | .byte c => m.allowsLiteral && (m.unicode || c.toNat < 0x80)
  | .named isNegated => m.allowsNamed isNegated
  | .place isWord => !(isWord && m.unicode)

end Mishap.Pattern
