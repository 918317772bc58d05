/-!
# Tokens of YAML text

The tokens into which a text is divided. Where a line begins a nested list or object, and where it
ends one, the lexer adds tokens of its own, so that indentation need not be looked at again. Tags
are bytes, since their escapes need not stand for characters.
-/

namespace Mishap.Yaml

/-- The styles in which a scalar can stand in a text. -/
inductive ScalarStyle where
  | plain
  | single
  | double
  | literal
  | folded
  deriving DecidableEq, Repr

/-- A token. -/
inductive Token where
  | version (major minor : Nat)
  | handle (handle : List Char) (uri : List UInt8)
  | documentStart
  | documentEnd
  | blockListStart
  | blockObjectStart
  | blockEnd
  | flowListStart
  | flowListEnd
  | flowObjectStart
  | flowObjectEnd
  | blockItem
  | flowNext
  | key
  | value
  | reference (name : List Char)
  | anchor (name : List Char)
  | tag (handle : List Char) (suffix : List UInt8)
  | scalar (style : ScalarStyle) (text : List Char)
  deriving DecidableEq, Repr

end Mishap.Yaml
