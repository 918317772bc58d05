import Mishap.Yaml.Scalar

/-!
# Dividing YAML text into tokens

The lexer walks over the text once. A scalar or a closing bracket may turn out to be a key when a
colon follows it on its line; until then its place is remembered, for each level of brackets,
and the key token is put in front of it when the colon comes. Lines that are indented deeper open
a block, shallower ones close as many as they leave.
-/

namespace Mishap.Yaml

/-- A place where a key may have begun. -/
structure SimpleKey where
  /-- It can be nothing but a key, so that a missing colon is a fault. -/
  required : Bool
  /-- The number of tokens before it. -/
  place : Nat
  mark : Mark
  deriving DecidableEq, Repr

/-- The lexer in the middle of a text. -/
structure Lexer where
  rest : List Char
  mark : Mark
  tokens : List Token
  /-- The possible key at the innermost level of brackets. -/
  key? : Option SimpleKey
  /-- The possible keys at the levels around it, one for each open bracket. -/
  outer : List (Option SimpleKey)
  /-- A key may begin here. -/
  keyAllowed : Bool
  /-- The column of the innermost block, -1 outside of all. -/
  indent : Int
  /-- The columns of the blocks around it. -/
  indents : List Int

namespace Lexer

open Scalar (isEnd isSpace atGap)

/-- The lexer at the start of a text. -/
def start (s : List Char) : Lexer :=
  { rest := s, mark := ⟨0, 0, 0⟩, tokens := [], key? := none, outer := [], keyAllowed := true,
    indent := -1, indents := [] }

/-- Inside brackets. -/
def inFlow (l : Lexer) : Bool := !l.outer.isEmpty

/-- Appends a token. -/
def emit (t : Token) (l : Lexer) : Lexer := { l with tokens := l.tokens ++ [t] }

/-- Puts a token behind the first `place` ones. -/
def insertAt (place : Nat) (t : Token) (l : Lexer) : Lexer :=
  { l with tokens := l.tokens.take place ++ t :: l.tokens.drop place }

/-- Moves to a place. -/
def moveTo (m : Mark) (s : List Char) (l : Lexer) : Lexer := { l with mark := m, rest := s }

/-- Passes `n` characters of the same line. -/
def skip (n : Nat) (l : Lexer) : Lexer := l.moveTo (l.mark.past (l.rest.take n)) (l.rest.drop n)

/-- The mark of the order of bytes. -/
def byteOrderMark : Char := '\uFEFF'

/-- Passes blanks, comments and line ends. A tab counts as a blank only where no key may begin, and
a byte order mark only at the start of a line. -/
def skipGap (flow : Bool) : Bool → Bool → Mark → List Char → Bool × Mark × List Char
  | allowed, _, m, [] => (allowed, m, [])
  | allowed, comment, m, c :: s =>
    if isEnd c then skipGap flow (allowed || !flow) false (m.nextLine c) s
    else if comment || c == '#' then skipGap flow allowed true (m.next c) s
    else if c == ' ' || (c == '\t' && (flow || !allowed)) || (c == byteOrderMark && m.column == 0)
    then skipGap flow allowed false (m.next c) s
    else (allowed, m, c :: s)

/-- The next token begins here. -/
def toToken (l : Lexer) : Lexer :=
  let (allowed, m, s) := skipGap l.inFlow l.keyAllowed false l.mark l.rest
  { l with keyAllowed := allowed, mark := m, rest := s }

/-- A possible key that is still possible at a place: on the same line, at most 1024 bytes
away. `none` is the fault of a required key that is not. -/
def stillKey? (m : Mark) (k? : Option SimpleKey) : Option (Option SimpleKey) :=
  match k? with
  | none => some none
  | some k =>
    if k.mark.line < m.line || k.mark.index + 1024 < m.index then
      if k.required then none else some none
    else some (some k)

/-- Forgets the keys that are no longer possible. -/
def forgetStale? (l : Lexer) : Option Lexer := do
  let key? ← stillKey? l.mark l.key?
  let outer ← l.outer.mapM (stillKey? l.mark)
  some { l with key?, outer }

/-- Gives up the possible key of this level. -/
def dropKey? (l : Lexer) : Option Lexer :=
  match l.key? with
  | some k => if k.required then none else some { l with key? := none }
  | none => some l

/-- Remembers this place as a possible key. -/
def saveKey? (l : Lexer) : Option Lexer :=
  if l.keyAllowed then do
    let required := !l.inFlow && l.indent == (l.mark.column : Int)
    let l ← l.dropKey?
    some { l with key? := some ⟨required, l.tokens.length, l.mark⟩ }
  else some l

/-- Opens a block at a column, if that is deeper than the innermost one; its token goes behind the
first `place` tokens. -/
def openBlock (column : Nat) (place : Nat) (t : Token) (l : Lexer) : Lexer :=
  if !l.inFlow && l.indent < column then
    { l.insertAt place t with indents := l.indent :: l.indents, indent := column }
  else l

/-- Closes the blocks that are deeper than a column. -/
def closeBlocks (column : Int) (l : Lexer) : Lexer :=
  if l.inFlow then l
  else go l.indents l
where
  /-- Closes blocks while there are any around. -/
  go : List Int → Lexer → Lexer
    | [], l => l
    | i :: is, l =>
      if column < l.indent then go is { l.emit .blockEnd with indent := i, indents := is } else l

/-- Ends all blocks at the start of a line that belongs to none. -/
def endBlocks? (l : Lexer) : Option Lexer := do
  let l ← (l.closeBlocks (-1)).dropKey?
  some { l with keyAllowed := false }

/-! ## Directives, anchors and tags -/

/-- A letter of a name. -/
def isNameChar (c : Char) : Bool :=
  Text.isDigit c || ('a' ≤ c && c ≤ 'z') || ('A' ≤ c && c ≤ 'Z') || c == '_' || c == '-'

/-- A part of a version: one to nine digits. -/
def versionPart? (s : List Char) : Option (Nat × List Char) :=
  let ds := s.takeWhile Text.isDigit
  if ds.isEmpty || 9 < ds.length then none else some (Text.decimalValue ds, s.drop ds.length)

/-- The byte that a percent escape stands for, and the text behind it. -/
def percentByte? : List Char → Option (UInt8 × List Char)
  | '%' :: a :: b :: s => do
    let high ← Text.hexValue? a
    let low ← Text.hexValue? b
    some (UInt8.ofNat (16 * high + low), s)
  | _ => none

/-- The number of bytes of a character that starts with a byte. -/
def characterLength? (b : UInt8) : Option Nat :=
  if b < 0x80 then some 1
  else if 0xC0 ≤ b ∧ b < 0xE0 then some 2
  else if 0xE0 ≤ b ∧ b < 0xF0 then some 3
  else if 0xF0 ≤ b ∧ b < 0xF8 then some 4
  else none

/-- The escapes of `n` bytes that continue a character. -/
def continuation? : Nat → List Char → Option (List UInt8 × List Char)
  | 0, s => some ([], s)
  | n + 1, s => do
    let (b, s) ← percentByte? s
    if b < 0x80 ∨ 0xC0 ≤ b then none
    else
      let (bs, s) ← continuation? n s
      some (b :: bs, s)

/-- The escapes of one character. Only its length is checked, so that its bytes may stand for no
character at all. -/
def percentCharacter? (s : List Char) : Option (List UInt8 × List Char) := do
  let (b, s) ← percentByte? s
  let n ← characterLength? b
  let (bs, s) ← continuation? (n - 1) s
  some (b :: bs, s)

/-- A character of a tag; some are allowed only where no bracket could be meant. -/
def isTagChar (wide : Bool) (c : Char) : Bool :=
  isNameChar c ||
    [';', '/', '?', ':', '@', '&', '=', '+', '$', '.', '!', '~', '*', '\'', '(', ')'].elem c ||
    (wide && (c == ',' || c == '[' || c == ']'))

/-- The bytes of a tag, with its percent escapes resolved. -/
def tagBytes? (wide : Bool) : Nat → List Char → Option (List UInt8 × List Char)
  | 0, s => some ([], s)
  | fuel + 1, s =>
    match s with
    | [] => some ([], [])
    | c :: t =>
      if c == '%' then do
        let (bytes, rest) ← percentCharacter? s
        let (more, rest) ← tagBytes? wide fuel rest
        some (bytes ++ more, rest)
      else if isTagChar wide c then
        (tagBytes? wide fuel t).map fun r => (c.toUInt8 :: r.1, r.2)
      else some ([], s)

/-- What counts of a tag: a zero byte ends it. -/
def upToZero (bytes : List UInt8) : List UInt8 := bytes.takeWhile (· != 0)

/-- A part of a tag that may not be left out. -/
def tagPart? (wide : Bool) (s : List Char) : Option (List UInt8 × List Char) := do
  let (bytes, rest) ← tagBytes? wide (s.length + 1) s
  if bytes.isEmpty then none else some (upToZero bytes, rest)

/-- A handle: a mark, a name and, if it is there, another mark. -/
def tagHandle? (s : List Char) : Option (List Char × List Char) :=
  match s with
  | '!' :: t =>
    let name := t.takeWhile isNameChar
    match t.drop name.length with
    | '!' :: rest => some ('!' :: name ++ ['!'], rest)
    | rest => some ('!' :: name, rest)
  | _ => none

/-- A tag with its handle and suffix. Without a handle the suffix is the whole tag. -/
def tag? (flow : Bool) (s : List Char) : Option (Token × List Char) := do
  let (handle, suffix, rest) ←
    match s with
    | '!' :: '<' :: t => do
      let (uri, rest) ← tagPart? true t
      match rest with
      | '>' :: rest => some ([], uri, rest)
      | _ => none
    | s => do
      let (handle, rest) ← tagHandle? s
      if handle.length ≥ 2 && handle.getLast? == some '!' then
        let (uri, rest) ← tagPart? false rest
        some (handle, uri, rest)
      else
        let (bytes, rest) ← tagBytes? false (s.length + 1) (s.drop 1)
        let suffix := upToZero bytes
        some (if suffix.isEmpty then ([], ['!'.toUInt8], rest) else (['!'], suffix, rest))
  if atGap rest || (flow && rest.head? == some ',') then some (.tag handle suffix, rest) else none

/-- A directive, from behind its percent sign to its value. -/
def directive? (s : List Char) : Option (Token × List Char) := do
  let name := s.takeWhile isNameChar
  let rest := s.drop name.length
  if name.isEmpty || !atGap rest then none
  else
    let rest := rest.dropWhile isSpace
    if name == "YAML".toList then
      let (major, rest) ← versionPart? rest
      match rest with
      | '.' :: rest =>
        let (minor, rest) ← versionPart? rest
        some (.version major minor, rest)
      | _ => none
    else if name == "TAG".toList then
      let (handle, rest) ← tagHandle? rest
      if handle.getLast? != some '!' || !(rest.head?.any isSpace) then none
      else
        let rest := rest.dropWhile isSpace
        let (uri, rest) ← tagPart? true rest
        if !atGap rest then none else some (.handle handle uri, rest)
    else none

/-- The name behind the mark of an anchor or a reference. -/
def anchorName? (s : List Char) : Option (List Char × List Char) :=
  let name := s.takeWhile isNameChar
  let rest := s.drop name.length
  if name.isEmpty then none
  else if atGap rest || rest.head?.any fun c =>
      ['?', ':', ',', ']', '\x7d', '%', '@', '\x60'].elem c then some (name, rest)
  else none

/-! ## One token -/

/-- Moves behind a part of the line of which only the rest is known. -/
def moveToRest (s : List Char) (l : Lexer) : Lexer := l.skip (l.rest.length - s.length)

/-- A directive line. -/
def directiveLine? (l : Lexer) : Option Lexer := do
  let l ← l.endBlocks?
  let (t, rest) ← directive? (l.rest.drop 1)
  let l := (l.emit t).moveToRest rest
  let (m, s) ← Scalar.restOfLine? l.mark l.rest
  some (l.moveTo m s)

/-- A marker of three characters. -/
def marker? (t : Token) (l : Lexer) : Option Lexer := do
  let l ← l.endBlocks?
  some ((l.emit t).skip 3)

/-- An opening bracket. -/
def opening? (t : Token) (l : Lexer) : Option Lexer := do
  let l ← l.saveKey?
  some { (l.emit t).skip 1 with key? := none, outer := l.key? :: l.outer, keyAllowed := true }

/-- A closing bracket; without an open one it stays for the parser to refuse. -/
def closing? (t : Token) (l : Lexer) : Option Lexer := do
  let l ← l.dropKey?
  let l := match l.outer with
    | k :: ks => { l with key? := k, outer := ks }
    | [] => l
  some { (l.emit t).skip 1 with keyAllowed := false }

/-- A comma between brackets. -/
def comma? (l : Lexer) : Option Lexer := do
  let l ← l.dropKey?
  some { (l.emit .flowNext).skip 1 with keyAllowed := true }

/-- A mark that opens a block where it stands, unless it is between brackets. -/
def blockMark? (block t : Token) (allowed : Bool) (l : Lexer) : Option Lexer := do
  if !l.inFlow && !l.keyAllowed then none
  else
    let l ← (l.openBlock l.mark.column l.tokens.length block).dropKey?
    some { (l.emit t).skip 1 with keyAllowed := allowed }

/-- A colon: what was remembered as a possible key is one. -/
def colon? (l : Lexer) : Option Lexer :=
  match l.key? with
  | some k =>
    let l := (l.insertAt k.place .key).openBlock k.mark.column k.place .blockObjectStart
    some { (l.emit .value).skip 1 with key? := none, keyAllowed := false }
  | none =>
    if !l.inFlow && !l.keyAllowed then none
    else
      let l := l.openBlock l.mark.column l.tokens.length .blockObjectStart
      some { (l.emit .value).skip 1 with keyAllowed := !l.inFlow }

/-- An anchor, a reference or a tag. -/
def property? (scan : List Char → Option (Token × List Char)) (l : Lexer) : Option Lexer := do
  let l ← l.saveKey?
  let (t, rest) ← scan l.rest
  some { (l.emit t).moveToRest rest with keyAllowed := false }

/-- A scalar of a style that may be a key. -/
def scalar? (style : ScalarStyle) (scan : Mark → List Char → Option Scalar.Scanned) (l : Lexer) :
    Option Lexer := do
  let l ← l.saveKey?
  let r ← scan l.mark l.rest
  some { (l.emit (.scalar style r.text)).moveTo r.mark r.rest with keyAllowed := r.broken }

/-- A block scalar. -/
def block? (style : ScalarStyle) (fuel : Nat) (l : Lexer) : Option Lexer := do
  let l ← l.dropKey?
  let r ← Scalar.block? l.indent fuel l.mark l.rest
  some { (l.emit (.scalar style r.text)).moveTo r.mark r.rest with keyAllowed := true }

/-- Characters with which no plain scalar begins. -/
def isIndicator (c : Char) : Bool :=
  ['-', '?', ':', ',', '[', ']', '\x7b', '\x7d', '#', '&', '*', '!', '|', '>', '\'', '"', '%', '@',
    '\x60'].elem c

/-- A plain scalar begins with this character. -/
def startsPlain (flow : Bool) (c : Char) (s : List Char) : Bool :=
  !(isSpace c || isEnd c || isIndicator c) ||
    (c == '-' && !(s.head?.any isSpace)) ||
    (!flow && (c == '?' || c == ':') && !atGap s)

/-- The token that begins with the character `c`, with a fuel above the length of the text. -/
def token? (fuel : Nat) (c : Char) (s : List Char) (l : Lexer) : Option Lexer :=
  let flow := l.inFlow
  let isMarker := Scalar.atMarker l.mark (c :: s)
  if c == '%' && l.mark.column == 0 then l.directiveLine?
  else if isMarker then l.marker? (if c == '-' then .documentStart else .documentEnd)
  else if c == '[' then l.opening? .flowListStart
  else if c == '\x7b' then l.opening? .flowObjectStart
  else if c == ']' then l.closing? .flowListEnd
  else if c == '\x7d' then l.closing? .flowObjectEnd
  else if c == ',' then l.comma?
  else if c == '-' && atGap s then l.blockMark? .blockListStart .blockItem true
  else if c == '?' && (flow || atGap s) then l.blockMark? .blockObjectStart .key (!flow)
  else if c == ':' && (flow || atGap s) then l.colon?
  else if c == '*' then
    l.property? fun s => (anchorName? (s.drop 1)).map fun r => (.reference r.1, r.2)
  else if c == '&' then
    l.property? fun s => (anchorName? (s.drop 1)).map fun r => (.anchor r.1, r.2)
  else if c == '!' then l.property? (tag? flow)
  else if c == '|' && !flow then l.block? .literal fuel
  else if c == '>' && !flow then l.block? .folded fuel
  else if c == '\'' then l.scalar? .single (Scalar.quoted? true fuel)
  else if c == '"' then l.scalar? .double (Scalar.quoted? false fuel)
  else if startsPlain flow c s then l.scalar? .plain (Scalar.plain? flow (l.indent + 1).toNat fuel)
  else none

/-- The end of the text, which counts as a new line. -/
def finish? (l : Lexer) : Option (List Token) := do
  let l ← l.endBlocks?
  some l.tokens

/-- Reads tokens to the end of the text. Every token takes a character, so two more than the length
of the text is fuel enough for the tokens and for each of them. -/
def run? : Nat → Lexer → Option (List Token)
  | 0, _ => none
  | fuel + 1, l => do
    let l ← l.toToken.forgetStale?
    let l := l.closeBlocks l.mark.column
    match l.rest with
    | [] => l.finish?
    | c :: s => run? fuel (← l.token? fuel c s)

end Lexer

/-- A character that may stand in a text. -/
def isReadable (c : Char) : Bool :=
  c == '\t' || c == '\n' || c == '\r' || c == '\x85' ||
    (0x20 ≤ c.toNat && c.toNat ≤ 0x7E) || (0xA0 ≤ c.toNat && c.toNat ≤ 0xFFFD) ||
    0x10000 ≤ c.toNat

/-- Reduces line ends to newlines; the two Unicode separators stay. -/
def plainEnds : List Char → List Char
  | '\r' :: '\n' :: s => '\n' :: plainEnds s
  | c :: s => (if c == '\r' || c == '\x85' then '\n' else c) :: plainEnds s
  | [] => []

/-- The tokens of a text, if it can be divided into tokens. -/
def tokens? (text : List Char) : Option (List Token) :=
  let s := plainEnds text
  if s.all isReadable then Lexer.run? (s.length + 2) (Lexer.start s) else none

end Mishap.Yaml
