import Mishap.Text.Quoted

/-!
# Outlines for diagnostics

An outline shows how a value is made up: records with named fields, some of them left out, wrappers
with a name, lists, and words. It is laid out on one line, or with one part a line, four blanks a
level, and a comma after each part.
-/

namespace Mishap

/-- How a value is made up. -/
inductive Outline where
  | word (s : String)
  /-- A record; the flag says that more is left out than is shown. -/
  | record (name : String) (fields : List (String × Outline)) (more : Bool)
  | wrapper (name : String) (parts : List Outline)
  | list (items : List Outline)
  deriving Inhabited

namespace Outline

/-- A quoted text. -/
def text (s : String) : Outline := .word (Text.quoted s)

/-- A natural number. -/
def nat (n : Nat) : Outline := .word (String.ofList (Text.decimal n))

/-- A boolean. -/
def bool (b : Bool) : Outline := .word (if b then "true" else "false")

/-- A value that may be missing. -/
def optional (v? : Option Outline) : Outline :=
  match v? with
  | some v => .wrapper "Some" [v]
  | none => .word "None"

/-- Parts separated by commas, before what closes them. -/
def separated : List String → String := String.intercalate ", "

mutual

/-- The outline on one line. -/
def line : Outline → String
  | .word s => s
  | .record name fields more =>
    let parts := lineFields fields ++ (if more then [".."] else [])
    if parts.isEmpty then name
    else name ++ " \x7b " ++ separated parts ++ " \x7d"
  | .wrapper name parts => name ++ "(" ++ separated (lineItems parts) ++ ")"
  | .list items => "[" ++ separated (lineItems items) ++ "]"

/-- The outlines of parts. -/
def lineItems : List Outline → List String
  | [] => []
  | x :: xs => line x :: lineItems xs

/-- The outlines of fields behind their names. -/
def lineFields : List (String × Outline) → List String
  | [] => []
  | (k, x) :: fs => (k ++ ": " ++ line x) :: lineFields fs

end

/-- The blanks of a level. -/
def indent (level : Nat) : String := String.ofList (List.replicate (4 * level) ' ')

mutual

/-- The outline with one part a line, for a place at a level. -/
def tall (level : Nat) : Outline → String
  | .word s => s
  | .record name [] false => name
  | .record name fields more =>
    name ++ " \x7b\n" ++ tallFields (level + 1) fields ++
      (if more then indent (level + 1) ++ "..\n" else "") ++ indent level ++ "\x7d"
  | .wrapper name parts => name ++ "(\n" ++ tallItems (level + 1) parts ++ indent level ++ ")"
  | .list [] => "[]"
  | .list items => "[\n" ++ tallItems (level + 1) items ++ indent level ++ "]"

/-- The parts, each with a comma on its own line. -/
def tallItems (level : Nat) : List Outline → String
  | [] => ""
  | x :: xs => indent level ++ tall level x ++ ",\n" ++ tallItems level xs

/-- The fields, each with a comma on its own line. -/
def tallFields (level : Nat) : List (String × Outline) → String
  | [] => ""
  | (k, x) :: fs => indent level ++ k ++ ": " ++ tall level x ++ ",\n" ++ tallFields level fs

end

/-- The outline in one of its two layouts. -/
def write (expanded : Bool) (o : Outline) : String := if expanded then o.tall 0 else o.line

end Outline

end Mishap
