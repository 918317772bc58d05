import Mishap.Json.Basic
import Mishap.Number.Shortest
import Mishap.Yaml.Plain

/-!
# Writing YAML

Values are written in block style, two blanks a level. Lists that are the value of a key are not
indented further; a list or an object that follows a dash or a question mark starts on its line.
A text stays plain where it can, and is quoted where it would mean something else; texts of
several lines are literal blocks, and what no other style can show is double-quoted.
-/

namespace Mishap.Yaml

/-- The styles of a scalar. -/
inductive Style where
  | plain
  | single
  | double
  | literal
  deriving DecidableEq, Repr

/-- A line end of any kind. -/
def isBreak (c : Char) : Bool :=
  c == '\n' || c == '\r' || c == '\x85' || c == '\u2028' || c == '\u2029'

/-- A blank, a line end, or the end of the text. -/
def isGap : Option Char → Bool
  | none => true
  | some c => c == ' ' || c == '\t' || c == '\x00' || isBreak c

/-- A character that may stand outside double quotes. -/
def isPrintable (c : Char) : Bool :=
  let n := c.toNat
  n == 0x0A || (0x20 ≤ n && n ≤ 0x7E) || (0xA0 ≤ n && n ≤ 0xD7FF) ||
    (0xE000 ≤ n && n ≤ 0xFFFD && n != 0xFEFF) || 0x10000 ≤ n

/-- What a text holds that restricts the styles in which it can be written. -/
structure Traits where
  /-- A character that would be read as structure. -/
  indicator : Bool
  special : Bool
  breaks : Bool
  /-- A blank at the very start or end. -/
  leadingSpace : Bool
  trailingSpace : Bool
  leadingBreak : Bool
  trailingBreak : Bool
  /-- A blank right before a line end. -/
  spaceBreak : Bool
  /-- A blank right after a line end. -/
  breakSpace : Bool
  deriving DecidableEq, Repr

namespace Traits

/-- Characters that may not start a plain scalar. -/
def isLeadingIndicator (c : Char) : Bool :=
  ['#', ',', '[', ']', '\x7b', '\x7d', '&', '*', '!', '|', '>', '\'', '"', '%', '@', '\x60'].elem c

/-- The first character would be read as structure, given the one after it. -/
def startsIndicator (c : Char) (next : Option Char) : Bool :=
  isLeadingIndicator c || ((c == '?' || c == ':' || c == '-') && isGap next)

/-- A later character would be read as structure, given its neighbours. -/
def innerIndicator (before : Char) (c : Char) (next : Option Char) : Bool :=
  (c == ':' && isGap next) || (c == '#' && isGap (some before))

/-- Some pair or triple of neighbours satisfies a test. -/
def anyInner (test : Char → Char → Option Char → Bool) : List Char → Bool
  | a :: b :: s => test a b s.head? || anyInner test (b :: s)
  | _ => false

/-- The text starts like a document marker. -/
def startsMarker (s : List Char) : Bool :=
  s.take 3 == ['-', '-', '-'] || s.take 3 == ['.', '.', '.']

/-- The traits of a text. -/
def of (s : List Char) : Traits where
  indicator :=
    startsMarker s ||
    (match s with
      | c :: t => startsIndicator c t.head?
      | [] => false) ||
    anyInner innerIndicator s
  special := s.any fun c => !isPrintable c
  breaks := s.any isBreak
  leadingSpace := s.head? == some ' '
  trailingSpace := s.getLast? == some ' '
  leadingBreak := s.head?.any isBreak
  trailingBreak := s.getLast?.any isBreak
  spaceBreak := anyInner (fun a b _ => a == ' ' && isBreak b) s
  breakSpace := anyInner (fun a b _ => isBreak a && b == ' ') s

/-- The text can stand without quotes outside brackets. -/
def allowsPlain (t : Traits) : Bool :=
  !(t.leadingSpace || t.leadingBreak || t.trailingSpace || t.trailingBreak || t.breakSpace ||
    t.spaceBreak || t.special || t.breaks || t.indicator)

/-- The text can stand between single quotes. -/
def allowsSingle (t : Traits) : Bool := !(t.breakSpace || t.spaceBreak || t.special)

/-- The text can be a literal block. -/
def allowsLiteral (t : Traits) : Bool := !(t.trailingSpace || t.spaceBreak || t.special)

end Traits

namespace Writer

/-- The text would be read as something other than itself without quotes. -/
def needsQuotes (s : List Char) : Bool :=
  Plain.meaning s != .text || Plain.hasLeadingZero s

/-- The style of a text; a key that stands before its colon is never a block. -/
def styleOf (s : List Char) : Style :=
  let t := Traits.of s
  if s.isEmpty then .single
  else if s.contains '\n' then if t.allowsLiteral then .literal else .double
  else if !needsQuotes s && t.allowsPlain then .plain
  else if t.allowsSingle then .single
  else .double

/-- The blanks of a level. -/
def blanks (n : Nat) : List Char := List.replicate n ' '

/-- The characters between single quotes. A line end other than a newline is followed by the
indentation before the next character or the closing quote. -/
def singleBody (indent : Nat) : Bool → List Char → List Char
  | broken, [] => if broken then blanks indent else []
  | broken, c :: s =>
    if isBreak c then c :: singleBody indent true s
    else
      (if broken then blanks indent else []) ++ (if c = '\'' then ['\'', '\''] else [c]) ++
        singleBody indent false s

/-- One character between double quotes. -/
def doubleChar (c : Char) : List Char :=
  match c with
  | '\x00' => ['\\', '0']
  | '\x07' => ['\\', 'a']
  | '\x08' => ['\\', 'b']
  | '\t' => ['\\', 't']
  | '\n' => ['\\', 'n']
  | '\x0b' => ['\\', 'v']
  | '\x0c' => ['\\', 'f']
  | '\r' => ['\\', 'r']
  | '\x1b' => ['\\', 'e']
  | '"' => ['\\', '"']
  | '\\' => ['\\', '\\']
  | '\x85' => ['\\', 'N']
  | '\u2028' => ['\\', 'L']
  | '\u2029' => ['\\', 'P']
  | c =>
    if isPrintable c then [c]
    else if c.toNat ≤ 0xFF then '\\' :: 'x' :: Text.hexUpper 2 c.toNat
    else if c.toNat ≤ 0xFFFF then '\\' :: 'u' :: Text.hexUpper 4 c.toNat
    else '\\' :: 'U' :: Text.hexUpper 8 c.toNat

/-- What a literal block says about its indentation and its last line ends. -/
def literalHints (s : List Char) : List Char :=
  let lead := match s with
    | c :: _ => if c = ' ' ∨ isBreak c then ['2'] else []
    | [] => []
  let chomp := match s.reverse with
    | [] => ['-']
    | [c] => if isBreak c then ['+'] else ['-']
    | c :: d :: _ => if !isBreak c then ['-'] else if isBreak d then ['+'] else []
  lead ++ chomp

/-- The lines of a literal block: every line that is not empty is indented. -/
def literalBody (indent : Nat) : Bool → List Char → List Char
  | _, [] => []
  | fresh, c :: s =>
    if isBreak c then c :: literalBody indent true s
    else (if fresh then blanks indent else []) ++ c :: literalBody indent false s

/-- A text in its style, without the line end after it. -/
def scalarChars (indent : Nat) (s : List Char) : List Char :=
  match styleOf s with
  | .plain => s
  | .single => '\'' :: singleBody indent false s ++ ['\'']
  | .double => '"' :: s.flatMap doubleChar ++ ['"']
  | .literal => '|' :: literalHints s ++ '\n' :: literalBody indent true s

/-- The line end after a text, which a literal block may have in itself. -/
def scalarEnd (s : List Char) : List Char :=
  if styleOf s = .literal ∧ s.getLast?.any isBreak then [] else ['\n']

/-- A text with the line end after it. -/
def scalarLine (indent : Nat) (s : List Char) : List Char := scalarChars indent s ++ scalarEnd s

/-- A key of one line and at most 128 bytes stands before its colon; any other follows a question
mark. -/
def isSimpleKey (k : String) : Bool := k.utf8ByteSize ≤ 128 && !k.toList.any isBreak

/-- Where a value stands: at the top, behind a key and its colon, or behind a mark that leaves the
rest of the line to it. -/
inductive Place where
  | top
  | key
  | mark
  deriving DecidableEq, Repr

/-- The blank between a mark and what follows on its line. -/
def Place.gap : Place → List Char
  | .top => []
  | _ => [' ']

/-- The indentation inside a value that stands under a key of a level. -/
def inner (place : Place) (level : Nat) : Nat :=
  match place with
  | .top => 0
  | _ => level + 2

/-- The indentation of the lines of a scalar. -/
def scalarIndent (place : Place) (level : Nat) : Nat :=
  inner place level + (if place = .top then 2 else 0)

/-- The text of a number. -/
def numberChars : Number → List Char
  | .int i => Text.integer i
  | .double x => (FloatStyle.yaml.write x).toList

/-- The part of an entry up to and including its colon. -/
def keyChars (level : Nat) (k : String) : List Char :=
  if isSimpleKey k then scalarChars (level + 2) k.toList ++ [':']
  else '?' :: ' ' :: scalarLine (level + 2) k.toList ++ blanks level ++ [':']

/-- Where the value of a key stands. -/
def placeAfter (k : String) : Place := if isSimpleKey k then .key else .mark

mutual

/-- A value behind its mark or key, to the end of its last line. -/
def nodeChars (place : Place) (level : Nat) : Json → List Char
  | .null => place.gap ++ "null\n".toList
  | .bool true => place.gap ++ "true\n".toList
  | .bool false => place.gap ++ "false\n".toList
  | .number n => place.gap ++ numberChars n ++ ['\n']
  | .string s => place.gap ++ scalarLine (scalarIndent place level) s.toList
  | .array [] => place.gap ++ "[]\n".toList
  | .array (x :: xs) =>
    match place with
    | .key => '\n' :: blanks level ++ '-' :: nodeChars .mark level x ++ itemsChars level xs
    | p =>
      p.gap ++ '-' :: nodeChars .mark (inner p level) x ++ itemsChars (inner p level) xs
  | .object [] => place.gap ++ ['\x7b', '\x7d', '\n']
  | .object ((k, x) :: ms) =>
    (match place with
      | .key => '\n' :: blanks (level + 2)
      | p => p.gap) ++
      keyChars (inner place level) k ++ nodeChars (placeAfter k) (inner place level) x ++
      membersChars (inner place level) ms

/-- The items after the first, each on its own line. -/
def itemsChars (level : Nat) : List Json → List Char
  | [] => []
  | x :: xs => blanks level ++ '-' :: nodeChars .mark level x ++ itemsChars level xs

/-- The members after the first, each on its own line. -/
def membersChars (level : Nat) : List (String × Json) → List Char
  | [] => []
  | (k, x) :: ms =>
    blanks level ++ keyChars level k ++ nodeChars (placeAfter k) level x ++ membersChars level ms

end

end Writer

/-- The YAML text of a value. -/
def write (v : Json) : String := String.ofList (Writer.nodeChars .top 0 v)

end Mishap.Yaml
