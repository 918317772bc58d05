/-!
# Nesting of patterns

Groups, repetitions, classes, choices and sequences add one level each to what they hold. A
sequence is one from two parts on: a part on its own is as deep as it is.
-/

namespace Mishap.Pattern

/-- Parts side by side, by the depths of the last one and of the deepest one before it. -/
inductive Parts where
  | none
  | one (depth : Nat)
  | more (earlier last : Nat)
  deriving DecidableEq, Repr

namespace Parts

/-- Adds a part at the end. -/
def add (depth : Nat) : Parts → Parts
  | .none => .one depth
  | .one d => .more d depth
  | .more e d => .more (max e d) depth

/-- Repeats the last part. -/
def repeatLast : Parts → Parts
  | .none => .none
  | .one d => .one (d + 1)
  | .more e d => .more e (d + 1)

/-- The depth of the parts together. -/
def depth : Parts → Nat
  | .none => 0
  | .one d => d
  | .more e d => max e d + 1

end Parts

end Mishap.Pattern
