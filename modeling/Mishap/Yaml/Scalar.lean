import Mishap.Text.Digits
import Mishap.Yaml.Token

/-!
# Scalars in YAML text

Each scanner here starts at the first character of its scalar and gives the text that the scalar
stands for, with the place behind it. Line ends have been reduced to newlines and the two Unicode
separators. `none` is a fault.
-/

namespace Mishap.Yaml

/-- A place in a text: bytes of UTF-8 before it, lines before it, and characters before it on its
line. -/
structure Mark where
  index : Nat
  line : Nat
  column : Nat
  deriving DecidableEq, Repr

namespace Mark

/-- Behind one character of the same line. -/
def next (m : Mark) (c : Char) : Mark := ⟨m.index + c.utf8Size, m.line, m.column + 1⟩

/-- Behind characters of the same line. -/
def past (m : Mark) (s : List Char) : Mark := s.foldl next m

/-- Behind a line end. -/
def nextLine (m : Mark) (c : Char) : Mark := ⟨m.index + c.utf8Size, m.line + 1, 0⟩

end Mark

namespace Scalar

/-- A line end. -/
def isEnd (c : Char) : Bool := c == '\n' || c == '\u2028' || c == '\u2029'

/-- A blank within a line. -/
def isSpace (c : Char) : Bool := c == ' ' || c == '\t'

/-- A blank, a line end or the end of the text is next. -/
def atGap : List Char → Bool
  | [] => true
  | c :: _ => isSpace c || isEnd c

/-- Three dashes or three dots that stand alone at the start of a line. -/
def atMarker (m : Mark) : List Char → Bool
  | a :: b :: c :: s => m.column == 0 && a == b && b == c && (a == '-' || a == '.') && atGap s
  | _ => false

/-- What a run of blanks and line ends inside a scalar stands for: blanks stand for themselves, one
newline for a blank, and of more line ends the first newline is dropped. -/
def fold (spaces breaks : List Char) : List Char :=
  match breaks with
  | [] => spaces
  | ['\n'] => [' ']
  | '\n' :: more => more
  | breaks => breaks

/-- The blanks and line ends before the next character of a scalar. -/
structure Gap where
  spaces : List Char
  breaks : List Char
  mark : Mark
  rest : List Char

/-- Takes blanks and line ends. Blanks that stand after a line end are dropped; a tab among them
before the column `indent` is a fault. -/
def gap? (indent : Nat) : Bool → Mark → List Char → Option Gap
  | _, m, [] => some ⟨[], [], m, []⟩
  | broken, m, c :: s =>
    if isSpace c then
      if broken && c == '\t' && m.column < indent then none
      else (gap? indent broken (m.next c) s).map fun g =>
        if broken then g else { g with spaces := c :: g.spaces }
    else if isEnd c then
      (gap? indent true (m.nextLine c) s).map fun g =>
        { g with spaces := [], breaks := c :: g.breaks }
    else some ⟨[], [], m, c :: s⟩

/-! ## Plain scalars -/

/-- A character that ends a plain scalar between brackets. -/
def isFlowMark (c : Char) : Bool := [',', '[', ']', '\x7b', '\x7d'].elem c

/-- The characters of a plain scalar up to a blank or an end of the scalar. -/
def plainRun? (flow : Bool) : Mark → List Char → Option (List Char × Mark × List Char)
  | m, [] => some ([], m, [])
  | m, c :: s =>
    if isSpace c || isEnd c then some ([], m, c :: s)
    else if flow && c == ':' && (s.head?.any fun d => isFlowMark d || d == '?') then none
    else if (c == ':' && atGap s) || (flow && isFlowMark c) then some ([], m, c :: s)
    else (plainRun? flow (m.next c) s).map fun r => (c :: r.1, r.2)

/-- A scanned scalar: its text, whether a line end follows it, and the place behind it. -/
structure Scanned where
  text : List Char
  broken : Bool
  mark : Mark
  rest : List Char

/-- The runs of a plain scalar. `pending` is what stands between the last run and this one. -/
def plainFrom? (flow : Bool) (indent : Nat) :
    Nat → List Char → Bool → Mark → List Char → Option Scanned
  | 0, _, broken, m, s => some ⟨[], broken, m, s⟩
  | fuel + 1, pending, broken, m, s =>
    if atMarker m s || s.head? == some '#' then some ⟨[], broken, m, s⟩
    else do
      let (run, m, s) ← plainRun? flow m s
      let broken := broken && run.isEmpty
      let text := if run.isEmpty then [] else pending ++ run
      if s.isEmpty || !atGap s then some ⟨text, broken, m, s⟩
      else
        let g ← gap? indent false m s
        let broken := !g.breaks.isEmpty
        if !flow && g.mark.column < indent then some ⟨text, broken, g.mark, g.rest⟩
        else
          let more ← plainFrom? flow indent fuel (fold g.spaces g.breaks) broken g.mark g.rest
          some { more with text := text ++ more.text }

/-- A plain scalar. Its later lines have to reach the column `indent`, unless it stands between
brackets. Every run but the last takes a character, so a fuel above the length of the text is no
limit. -/
def plain? (flow : Bool) (indent fuel : Nat) (m : Mark) (s : List Char) : Option Scanned :=
  plainFrom? flow indent fuel [] false m s

/-! ## Quoted scalars -/

/-- The number that `n` hexadecimal digits denote. -/
def hexDigits? (n : Nat) (s : List Char) : Option Nat :=
  let ds := s.take n
  if ds.length = n then
    ds.foldl (fun n? c => do some ((← n?) * 16 + (← Text.hexValue? c))) (some 0)
  else none

/-- The character of an escape after its backslash, and the length of the escape. -/
def escape? : List Char → Option (Char × Nat)
  | '0' :: _ => some ('\x00', 1)
  | 'a' :: _ => some ('\x07', 1)
  | 'b' :: _ => some ('\x08', 1)
  | 't' :: _ | '\t' :: _ => some ('\t', 1)
  | 'n' :: _ => some ('\n', 1)
  | 'v' :: _ => some ('\x0b', 1)
  | 'f' :: _ => some ('\x0c', 1)
  | 'r' :: _ => some ('\r', 1)
  | 'e' :: _ => some ('\x1b', 1)
  | ' ' :: _ => some (' ', 1)
  | '"' :: _ => some ('"', 1)
  | '/' :: _ => some ('/', 1)
  | '\\' :: _ => some ('\\', 1)
  | 'N' :: _ => some ('\x85', 1)
  | '_' :: _ => some ('\xa0', 1)
  | 'L' :: _ => some ('\u2028', 1)
  | 'P' :: _ => some ('\u2029', 1)
  | 'x' :: s => coded 2 s
  | 'u' :: s => coded 4 s
  | 'U' :: s => coded 8 s
  | _ => none
where
  /-- A character by its code point in `n` digits. -/
  coded (n : Nat) (s : List Char) : Option (Char × Nat) := do
    let v ← hexDigits? n s
    if (0xD800 ≤ v ∧ v ≤ 0xDFFF) ∨ 0x10FFFF < v then none else some (Char.ofNat v, n + 1)

/-- The characters between quotes up to a blank, the closing quote, or a line end behind a
backslash, which the flag reports. -/
def quotedRun? (single : Bool) :
    Nat → Mark → List Char → Option (List Char × Bool × Mark × List Char)
  | 0, m, s => some ([], false, m, s)
  | fuel + 1, m, s =>
    match s with
    | [] => some ([], false, m, [])
    | c :: t =>
      if isSpace c || isEnd c then some ([], false, m, s)
      else if single && c == '\'' && t.head? == some '\'' then
        (quotedRun? single fuel (m.past (s.take 2)) (t.drop 1)).map fun r => ('\'' :: r.1, r.2)
      else if c == (if single then '\'' else '"') then some ([], false, m, s)
      else if !single && c == '\\' then
        match t with
        | e :: u =>
          if isEnd e then some ([], true, (m.next c).nextLine e, u)
          else do
            let (d, n) ← escape? t
            let r ← quotedRun? single fuel (m.past (s.take (n + 1))) (t.drop n)
            some (d :: r.1, r.2)
        | [] => none
      else (quotedRun? single fuel (m.next c) t).map fun r => (c :: r.1, r.2)

/-- The runs of a quoted scalar, behind its opening quote. -/
def quotedFrom? (single : Bool) : Nat → Mark → List Char → Option Scanned
  | 0, _, _ => none
  | fuel + 1, m, s =>
    if atMarker m s || s.isEmpty then none
    else do
      let (run, joined, m, s) ← quotedRun? single fuel m s
      if s.head? == some (if single then '\'' else '"') && !joined then
        some ⟨run, false, m.past (s.take 1), s.drop 1⟩
      else
        let g ← gap? 0 joined m s
        let between := if joined then g.breaks else fold g.spaces g.breaks
        let more ← quotedFrom? single fuel g.mark g.rest
        some { more with text := run ++ between ++ more.text }

/-- A quoted scalar, from its opening quote on, with a fuel above the length of the text. -/
def quoted? (single : Bool) (fuel : Nat) (m : Mark) (s : List Char) : Option Scanned :=
  quotedFrom? single fuel (m.past (s.take 1)) (s.drop 1)

/-! ## Block scalars -/

/-- What the line ends behind a block scalar stand for. -/
inductive Chomp where
  | strip
  | clip
  | keep
  deriving DecidableEq, Repr

/-- Takes the indentation of the next line of a block scalar, and the empty lines before it; gives
the line ends and the deepest column. With `indent` zero the indentation is still unknown. -/
def blockGap? (indent : Nat) : Nat → Mark → List Char → Option (List Char × Nat × Mark × List Char)
  | deepest, m, [] => some ([], max deepest m.column, m, [])
  | deepest, m, c :: s =>
    let within := indent == 0 || m.column < indent
    if c == ' ' && within then blockGap? indent deepest (m.next c) s
    else if c == '\t' && within then none
    else if isEnd c then
      (blockGap? indent (max deepest m.column) (m.nextLine c) s).map fun r => (c :: r.1, r.2)
    else some ([], max deepest m.column, m, c :: s)

/-- The lines of a block scalar. `breaks` are the line ends behind the text so far, of which the
first belongs to its last line unless `text` is still empty. -/
structure Lines where
  text : List Char
  /-- The line end of the last line. -/
  lineEnd : Option Char
  /-- The line ends of the empty lines behind it. -/
  trailing : List Char
  mark : Mark
  rest : List Char

/-- Takes the lines that reach the column `indent`. In a folded scalar a newline between two lines
that start with no blank stands for a blank. -/
def blockLines? (literal : Bool) (indent : Nat) :
    Nat → Bool → Lines → Option Lines
  | 0, _, l => some l
  | fuel + 1, afterBlank, l =>
    match l.rest with
    | [] => some l
    | c :: _ =>
      if l.mark.column != indent then some l
      else
        let startsBlank := isSpace c
        let joint :=
          if !literal && l.lineEnd == some '\n' && !afterBlank && !startsBlank then
            if l.trailing.isEmpty then [' '] else []
          else l.lineEnd.toList
        let line := l.rest.takeWhile fun c => !isEnd c
        let rest := l.rest.drop line.length
        let mark := l.mark.past line
        let text := l.text ++ joint ++ l.trailing ++ line
        match rest with
        | [] => some { text, lineEnd := none, trailing := [], mark, rest := [] }
        | e :: rest => do
          let (trailing, _, mark, rest) ← blockGap? indent 0 (mark.nextLine e) rest
          blockLines? literal indent fuel startsBlank
            { text, lineEnd := some e, trailing, mark, rest }

/-- The hints behind the mark of a block scalar, in either order: how to treat the line ends behind
it, and how much deeper than its parent it is indented, zero if that is not said. -/
def blockHints? : List Char → Option (Chomp × Nat × List Char)
  | s =>
    let (chomp, s) := sign s
    match chomp with
    | some chomp => (depth s).map fun (n, s) => (chomp, n, s)
    | none => do
      let (n, s) ← depth s
      if n = 0 then some (.clip, 0, s)
      else
        let (chomp, s) := sign s
        some (chomp.getD .clip, n, s)
where
  /-- A sign for the line ends. -/
  sign : List Char → Option Chomp × List Char
    | '+' :: s => (some .keep, s)
    | '-' :: s => (some .strip, s)
    | s => (none, s)
  /-- A digit for the indentation, which cannot be zero. -/
  depth : List Char → Option (Nat × List Char)
    | c :: s =>
      if c == '0' then none
      else if Text.isDigit c then some (Text.digitValue c, s)
      else some (0, c :: s)
    | [] => some (0, [])

/-- Blanks and a comment up to the end of a line, and the line end. -/
def restOfLine? (m : Mark) (s : List Char) : Option (Mark × List Char) :=
  let bare := s.dropWhile isSpace
  let bare := if bare.head? == some '#' then bare.dropWhile (fun c => !isEnd c) else bare
  match bare with
  | [] => some (m.past s, [])
  | c :: t =>
    if isEnd c then some ((m.past (s.take (s.length - t.length - 1))).nextLine c, t) else none

/-- A block scalar, from its mark on, below a parent that is indented by `parent` columns, -1 at the
top, with a fuel above the length of the text. -/
def block? (parent : Int) (fuel : Nat) (m : Mark) (s : List Char) : Option Scanned := do
  let literal := s.head? == some '|'
  let (chomp, more, t) ← blockHints? (s.drop 1)
  let (m, t) ← restOfLine? (m.past (s.take (s.length - t.length))) t
  let indent := if more = 0 then 0 else (if 0 ≤ parent then parent.toNat else 0) + more
  let (trailing, deepest, m, t) ← blockGap? indent 0 m t
  let indent := if indent = 0 then max (max deepest (parent + 1).toNat) 1 else indent
  let l ← blockLines? literal indent fuel false
    { text := [], lineEnd := none, trailing, mark := m, rest := t }
  let tail := match chomp with
    | .strip => []
    | .clip => l.lineEnd.toList
    | .keep => l.lineEnd.toList ++ l.trailing
  some ⟨l.text ++ tail, true, l.mark, l.rest⟩

end Scalar

end Mishap.Yaml
