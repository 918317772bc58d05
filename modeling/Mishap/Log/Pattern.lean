import Mishap.Log.Pattern.Class
import Mishap.Text.Alphanumeric

/-!
# Patterns for field values

A directive may ask for the value of a field by a regular expression, and all that matters here is
whether a text is one: groups and classes have to be closed, a repetition needs something to repeat,
an escape has to be known, no two groups have one name, and nothing is nested too deep. What would
need tables of characters of Unicode is refused: the classes of digits, blanks and letters, the
boundaries of words, and the neglect of case. Among bytes it is what would match parts of
characters. So are looks ahead and behind, references to groups, and counted repetitions.
-/

namespace Mishap.Pattern

/-! ## Groups -/

/-- What an opening parenthesis begins. -/
inductive Opening where
  /-- A group, with its mode and its name. -/
  | group (m : Mode) (name? : Option (List Char))
  /-- Flags that stand alone and change the mode of what follows. -/
  | flags (m : Mode)
  deriving DecidableEq, Repr

/-- The name of a group and the text behind its closing angle bracket. -/
def groupName? (s : List Char) : Option (List Char × List Char) :=
  let name := s.takeWhile (· != '>')
  let isFirst := fun c => c == '_' || Text.isAlphabetic c
  let isInner := fun c => ['_', '.', '[', ']'].elem c || Text.isAlphanumeric c
  match name, s.drop name.length with
  | c :: cs, '>' :: rest => if isFirst c && cs.all isInner then some (name, rest) else none
  | _, _ => none

/-- Every flag is known and stands once, and at most one dash stands in front of some of them. -/
def areFlags (s : List Char) : Bool :=
  s.all ("imsURux-".toList.elem ·) && s.Nodup && s.getLast? != some '-'

/-- Reads the flags of a group up to the colon behind them, or up to a closing parenthesis if they
stand alone. -/
def flags? (m : Mode) (s : List Char) : Option (Opening × List Char) :=
  let flags := s.takeWhile fun c => c != ':' && c != ')'
  if !areFlags flags then none
  else
    match s.drop flags.length with
    | ':' :: rest => some (.group (m.withFlags flags) none, rest)
    | ')' :: rest => if flags.isEmpty then none else some (.flags (m.withFlags flags), rest)
    | _ => none

/-- Reads what stands behind an opening parenthesis. A look behind would be a name that begins with
an exclamation mark. -/
def opening? (m : Mode) (s : List Char) : Option (Opening × List Char) :=
  match m.skip s with
  | '?' :: 'P' :: '<' :: t | '?' :: '<' :: t =>
    (groupName? t).map fun (name, rest) => (.group m (some name), rest)
  | '?' :: t => flags? m t
  | t => some (.group m none, t)

/-! ## Patterns -/

/-- An open group: its mode, the depth of its deepest finished branch, the parts of the branch that
is being read, and whether the last of them may be repeated. -/
structure OpenGroup where
  mode : Mode
  branch? : Option Nat
  parts : Parts
  isSolid : Bool
  deriving DecidableEq, Repr

namespace OpenGroup

/-- A group that has just been opened. -/
def start (m : Mode) : OpenGroup := ⟨m, none, .none, false⟩

/-- Adds a part of a depth. -/
def add (g : OpenGroup) (depth : Nat) : OpenGroup :=
  { g with parts := g.parts.add depth, isSolid := true }

/-- Adds flags, which nothing can repeat. -/
def addFlags (g : OpenGroup) (m : Mode) : OpenGroup :=
  { g with mode := m, parts := g.parts.add 0, isSolid := false }

/-- Repeats the last part. -/
def repeatLast (g : OpenGroup) : OpenGroup := { g with parts := g.parts.repeatLast }

/-- Begins the next branch. -/
def branch (g : OpenGroup) : OpenGroup :=
  ⟨g.mode, some (max (g.branch?.getD 0) g.parts.depth), .none, false⟩

/-- The depth of what the group holds. -/
def depth (g : OpenGroup) : Nat :=
  match g.branch? with
  | none => g.parts.depth
  | some d => max d g.parts.depth + 1

end OpenGroup

/-- Reads a single character, an escape or a place: whether it is allowed, and the text behind. -/
def single? (m : Mode) : List Char → Option (Bool × List Char)
  | '\\' :: s => (Escape.read? m s).map fun (e, t) => (e.isAllowed m, t)
  | '.' :: s => some (m.unicode, s)
  | '^' :: s | '$' :: s => some (true, s)
  | '\x7b' :: _ | [] => none
  | _ :: s => some (m.allowsLiteral, s)

/-- The depth of the rest of a pattern within some open groups, the names of groups so far being
given. Every step takes a character. -/
def depthOf? :
    Nat → OpenGroup → List OpenGroup → List (List Char) → List Char → Option Nat
  | 0, _, _, _, _ => none
  | fuel + 1, g, outer, names, s =>
    match g.mode.skip s with
    | [] => if outer.isEmpty then some g.depth else none
    | '(' :: t =>
      match opening? g.mode t with
      | some (.flags m, u) => depthOf? fuel (g.addFlags m) outer names u
      | some (.group m none, u) => depthOf? fuel (.start m) (g :: outer) names u
      | some (.group m (some name), u) =>
        if names.elem name then none
        else depthOf? fuel (.start m) (g :: outer) (name :: names) u
      | none => none
    | ')' :: t =>
      match outer with
      | [] => none
      | o :: outer => depthOf? fuel (o.add (g.depth + 1)) outer names t
    | '|' :: t => depthOf? fuel g.branch outer names t
    | '[' :: t =>
      match class? g.mode t with
      | some (depth, u) => depthOf? fuel (g.add depth) outer names u
      | none => none
    | c :: t =>
      if c == '*' || c == '+' || c == '?' then
        if g.isSolid then
          depthOf? fuel g.repeatLast outer names (if t.head? == some '?' then t.drop 1 else t)
        else none
      else
        match single? g.mode (c :: t) with
        | some (true, u) => depthOf? fuel (g.add 0) outer names u
        | _ => none

/-- The depth of a pattern. -/
def depth? (s : List Char) : Option Nat := depthOf? (s.length + 1) (.start .start) [] [] s

/-- The greatest depth of a pattern. -/
def maxDepth : Nat := 250

/-- The text is a pattern. -/
def isPattern (s : List Char) : Bool := (depth? s).any (· ≤ maxDepth)

end Mishap.Pattern
