import Mishap.Schema.Mismatch
import Mishap.Text.Bytes

/-!
# Faults in JSON text

A fault is a cause and the place where reading stopped: the rest of the text, and how many bytes of
that rest had been taken when the fault was noticed. `Fault.position` turns the place into a
line and a column, counted in bytes.
-/

namespace Mishap.Json

open Schema (Mismatch)

/-- Why a text is refused. -/
inductive Cause where
  | endInList
  | endInObject
  | endInString
  | endInValue
  | expectedColon
  | expectedListComma
  | expectedObjectComma
  | expectedWord
  | expectedValue
  | badEscape
  | badNumber
  | numberOutOfRange
  | controlCharacter
  | keyNotString
  | loneSurrogate
  | halfSurrogate
  | trailingComma
  | trailingCharacters
  | tooDeep
  | mismatch (m : Mismatch)
  deriving DecidableEq, Repr

/-- A cause in words. -/
def Cause.message : Cause → String
  | endInList => "EOF while parsing a list"
  | endInObject => "EOF while parsing an object"
  | endInString => "EOF while parsing a string"
  | endInValue => "EOF while parsing a value"
  | expectedColon => "expected " ++ Schema.ticked ":"
  | expectedListComma => "expected " ++ Schema.ticked "," ++ " or " ++ Schema.ticked "]"
  | expectedObjectComma => "expected " ++ Schema.ticked "," ++ " or " ++ Schema.ticked "\x7d"
  | expectedWord => "expected ident"
  | expectedValue => "expected value"
  | badEscape => "invalid escape"
  | badNumber => "invalid number"
  | numberOutOfRange => "number out of range"
  | controlCharacter => "control character (\\u0000-\\u001F) found while parsing a string"
  | keyNotString => "key must be a string"
  | loneSurrogate => "lone leading surrogate in hex escape"
  | halfSurrogate => "unexpected end of hex escape"
  | trailingComma => "trailing comma"
  | trailingCharacters => "trailing characters"
  | tooDeep => "recursion limit exceeded"
  | mismatch m => m.message

/-- A cause and the place where it was noticed. -/
structure Fault where
  cause : Cause
  rest : List Char
  ahead : Nat
  deriving DecidableEq, Repr

namespace Fault

/-- Walks over a number of bytes and counts lines and the bytes since the last line end. -/
def advance : Nat → Nat → Nat → List Char → Nat × Nat
  | _, line, column, [] => (line, column)
  | budget, line, column, c :: s =>
    if budget = 0 then (line, column)
    else if budget < c.utf8Size then (line, column + budget)
    else if c = '\n' then advance (budget - 1) (line + 1) 0 s
    else advance (budget - c.utf8Size) line (column + c.utf8Size) s

/-- The line and the column of the last byte that was taken, both counted from one. -/
def position (f : Fault) (text : List Char) : Nat × Nat :=
  advance (Text.byteSize text - Text.byteSize f.rest + f.ahead) 1 0 text

/-- A fault of a text in words. -/
def message (f : Fault) (text : String) : String :=
  let (line, column) := f.position text.toList
  f.cause.message ++ " at line " ++ String.ofList (Text.decimal line) ++
    " column " ++ String.ofList (Text.decimal column)

end Fault

end Mishap.Json
