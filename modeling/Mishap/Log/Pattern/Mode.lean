import Mishap.Text.Blank

/-!
# Modes of patterns

How a pattern is read from some place on: in Unicode or in bytes, with or without regard to case,
and whether blanks and remarks may stand between its parts. Flags change the mode.
-/

namespace Mishap.Pattern

/-- How a pattern is read. -/
structure Mode where
  /-- Upper and lower case are one. -/
  caseless : Bool
  /-- Characters are those of Unicode; otherwise classes hold bytes of ASCII. -/
  unicode : Bool
  /-- Blanks and remarks, from a number sign to the end of the line, are passed over. -/
  spaced : Bool
  deriving DecidableEq, Repr

namespace Mode

/-- The mode in which a pattern starts. -/
def start : Mode := ⟨false, true, false⟩

/-- Switches one flag. The flags for lines, for dots at the ends of lines and for greed do not
matter here. -/
def switch (m : Mode) (flag : Char) (on : Bool) : Mode :=
  match flag with
  | 'i' => { m with caseless := on }
  | 'u' => { m with unicode := on }
  | 'x' => { m with spaced := on }
  | _ => m

/-- The flags in front of a dash are switched on and those behind it off. -/
def withFlags (m : Mode) (flags : List Char) : Mode :=
  let on := flags.takeWhile (· != '-')
  let m := on.foldl (switch · · true) m
  (flags.drop on.length).foldl (switch · · false) m

/-- The text behind blanks and remarks, the text starting within a remark or not. -/
def skipRemarks : Bool → List Char → List Char
  | _, [] => []
  | true, c :: s => skipRemarks (c != '\n') s
  | false, c :: s =>
    if c == '#' then skipRemarks true s
    else if Text.isBlank c then skipRemarks false s
    else c :: s

/-- The text behind what is passed over. -/
def skip (m : Mode) (s : List Char) : List Char := if m.spaced then skipRemarks false s else s

/-- The next character that counts, if there is one. Of a remark only the sign is passed over. -/
def peek? (m : Mode) (s : List Char) : Option Char :=
  if m.spaced then
    match Text.skipBlanks s with
    | '#' :: t => (Text.skipBlanks t).head?
    | t => t.head?
  else s.head?

/-- A character may stand for itself: there are no tables for the cases of letters in Unicode. -/
def allowsLiteral (m : Mode) : Bool := !(m.unicode && m.caseless)

/-- A character may be a member of a class. -/
def allowsMember (m : Mode) (c : Char) : Bool := if m.unicode then !m.caseless else c.toNat < 0x80

/-- A class may be negated: among bytes that would take in parts of characters. -/
def allowsNegation (m : Mode) : Bool := m.unicode

/-- The class of digits, blanks or letters, or the one of all but them, may be named: there are
tables for bytes only. -/
def allowsNamed (m : Mode) (isNegated : Bool) : Bool := !m.unicode && !isNegated

end Mode

end Mishap.Pattern
