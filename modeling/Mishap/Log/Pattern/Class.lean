import Mishap.Log.Pattern.Escape
import Mishap.Log.Pattern.Nesting

/-!
# Classes of characters

A class in brackets holds characters, ranges of them, classes by name and further classes, and
joins what it holds by the signs of intersection, difference and symmetric difference. The names
are those of classes of ASCII, such as `[:alpha:]` inside of brackets.
-/

namespace Mishap.Pattern

/-! ## Members -/

/-- Reads a member, plain or escaped. -/
def member? (m : Mode) : List Char → Option (Escape × List Char)
  | '\\' :: s => Escape.read? m s
  | c :: s => some (.literal c, s)
  | [] => none

/-- An escape may be a member of a class. -/
def Escape.isMember (m : Mode) : Escape → Bool
  | .literal c | .byte c => m.allowsMember c
  | .named isNegated => m.allowsNamed isNegated
  | .place _ => false

/-- The two ends of a range are characters in order. -/
def Escape.isRange (m : Mode) (low high : Escape) : Bool :=
  match low.character?, high.character? with
  | some a, some b => a ≤ b && m.allowsMember a && m.allowsMember b
  | _, _ => false

/-- The text behind a member or a range. A dash in front of a bracket or of another dash makes no
range. -/
def memberEnd? (m : Mode) (s : List Char) : Option (List Char) := do
  let (low, t) ← member? m s
  match m.skip t with
  | '-' :: u =>
    if [some ']', some '-'].elem (m.peek? u) then
      if low.isMember m then some ('-' :: u) else none
    else
      let (high, v) ← member? m (m.skip u)
      if low.isRange m high then some v else none
  | t => if low.isMember m then some t else none

/-- The names of the classes of ASCII. -/
def classNames : List String :=
  ["alnum", "alpha", "ascii", "blank", "cntrl", "digit", "graph", "lower", "print", "punct",
   "space", "upper", "word", "xdigit"]

/-- Reads the name of a class behind its bracket: whether it is negated, and the text behind. -/
def className? : List Char → Option (Bool × List Char)
  | ':' :: s =>
    let (isNegated, s) := match s with
      | '^' :: t => (true, t)
      | t => (false, t)
    let name := s.takeWhile (· != ':')
    match s.drop name.length with
    | ':' :: ']' :: rest =>
      if classNames.elem (String.ofList name) then some (isNegated, rest) else none
    | _ => none
  | _ => none

/-! ## Brackets -/

/-- An open class: how deep the operations before the last sign are, and the members since. -/
structure OpenClass where
  operand? : Option Nat
  members : Parts
  deriving DecidableEq, Repr

namespace OpenClass

/-- A class that has just been opened. -/
def start : OpenClass := ⟨none, .none⟩

/-- Adds a member of a depth. -/
def add (l : OpenClass) (depth : Nat) : OpenClass := { l with members := l.members.add depth }

/-- The depth of the operations, the members since being the last operand. -/
def depth (l : OpenClass) : Nat :=
  match l.operand? with
  | none => l.members.depth
  | some d => max d l.members.depth + 1

/-- Begins the next operand. -/
def operate (l : OpenClass) : OpenClass := ⟨some l.depth, .none⟩

end OpenClass

/-- The text behind an opening bracket and the sign of negation. -/
def classStart? (m : Mode) (s : List Char) : Option (List Char) :=
  match m.skip s with
  | '^' :: t => if m.allowsNegation then some t else none
  | t => some t

/-- The depth of a class from within, and the text behind it. While the class is `opening` dashes
are members, and so is a closing bracket that comes first. Every step takes a character. -/
def classEnd? (m : Mode) :
    Nat → Bool → OpenClass → List OpenClass → List Char → Option (Nat × List Char)
  | 0, _, _, _, _ => none
  | fuel + 1, opening, l, outer, s =>
    match m.skip s with
    | [] => none
    | c :: t =>
      if opening && (c == '-' || (c == ']' && l == .start)) then
        if m.allowsMember c then classEnd? m fuel (c == '-') (l.add 0) outer t else none
      else
        match c, t with
        | '[', t =>
          match className? t with
          | some (isNegated, u) =>
            if m.allowsLiteral && (!isNegated || m.allowsNegation) then
              classEnd? m fuel false (l.add 0) outer u
            else none
          | none =>
            match classStart? m t with
            | some u => classEnd? m fuel true .start (l :: outer) u
            | none => none
        | ']', t =>
          match outer with
          | [] => some (l.depth + 1, t)
          | o :: outer => classEnd? m fuel false (o.add (l.depth + 1)) outer t
        | '&', '&' :: u | '-', '-' :: u | '~', '~' :: u =>
          classEnd? m fuel false l.operate outer u
        | c, t =>
          match memberEnd? m (c :: t) with
          | some u => classEnd? m fuel false (l.add 0) outer u
          | none => none

/-- The depth of a class behind its opening bracket, and the text behind it. -/
def class? (m : Mode) (s : List Char) : Option (Nat × List Char) := do
  classEnd? m (s.length + 1) true .start [] (← classStart? m s)

end Mishap.Pattern
