import Mishap.Json.Basic
import Mishap.Json.Fault

/-!
# Reading JSON

A reader takes the rest of the text and gives what it read with what follows. The pieces here
serve the readers of whole values and of shapes: blanks, words, numbers, strings, the items of
lists and the members of objects, and values that are skipped. A value may open `depth` brackets
inside one another; a skipped one may open any number.
-/

namespace Mishap.Json

/-- A reader of one part of a text. -/
abbrev Reader (α : Type) := List Char → Except Fault (α × List Char)

namespace Reader

/-- A fault noticed by looking at the next character. -/
def refuse {α : Type} (cause : Cause) (s : List Char) : Except Fault α := .error ⟨cause, s, 1⟩

/-- A fault noticed before the next character. -/
def refuseHere {α : Type} (cause : Cause) (s : List Char) : Except Fault α := .error ⟨cause, s, 0⟩

/-- White space between the tokens of a text. -/
def isSpace (c : Char) : Bool := c == ' ' || c == '\n' || c == '\t' || c == '\r'

/-- The text from the next token on. -/
def skipSpace (s : List Char) : List Char := s.dropWhile isSpace

/-- The rest of a word of which the first letter has been seen. -/
def word : List Char → List Char → Except Fault (List Char)
  | [], s => .ok s
  | _ :: _, [] => refuseHere .endInValue []
  | c :: w, d :: s => if c = d then word w s else refuse .expectedWord (d :: s)

/-! ## Numbers -/

/-- Takes digits into a number as long as it fits 64 bits; gives the digits left over. -/
def accumulate (limit : Nat) : Nat → List Char → Nat × List Char
  | n, [] => (n, [])
  | n, c :: s =>
    let next := 10 * n + Text.digitValue c
    if next < limit then accumulate limit next s else (n, c :: s)

/-- Scales by a power of ten in steps that a double can hold; `none` if the result is too large. -/
def scaled? : Nat → Double → Int → Option Double
  | 0, x, _ => some x
  | fuel + 1, x, e =>
    if e.natAbs ≤ 308 then
      let power := Double.ofDecimal 1 e.natAbs
      if 0 ≤ e then
        let y := x.multiply power
        if y.isFinite then some y else none
      else some (x.divide power)
    else if x.isZero then some x
    else if 0 ≤ e then none
    else scaled? fuel (x.divide (Double.ofDecimal 1 308)) (e + 308)

/-- The double of a significand and a decimal exponent. Three steps bring any 64-bit significand
to zero, so the count of steps is no limit. -/
def floating (negative : Bool) (significand : Nat) (e : Int) (s : List Char) :
    Except Fault (Number × List Char) :=
  match scaled? 4 (Double.ofNat significand) e with
  | some x => .ok (.double (x.signed negative), s)
  | none => refuseHere .numberOutOfRange s

/-- The digits of an exponent that counts up or down. -/
def exponentDigits (negative : Bool) (significand : Nat) (start : Int) (down : Bool)
    (s : List Char) : Except Fault (Number × List Char) :=
  match s with
  | [] => refuseHere .endInValue []
  | c :: _ =>
    if Text.isDigit c then
      let (e, left) := accumulate 0x80000000 0 (s.takeWhile Text.isDigit)
      let after := s.dropWhile Text.isDigit
      match left with
      | [] => floating negative significand (if down then start - e else start + e) after
      | _ :: more =>
        if significand ≠ 0 ∧ ¬ down then refuseHere .numberOutOfRange (more ++ after)
        else .ok (.double (Double.zero.signed negative), after)
    else refuse .badNumber s

/-- The exponent after its letter. -/
def exponentPart (negative : Bool) (significand : Nat) (start : Int) :
    List Char → Except Fault (Number × List Char)
  | '+' :: s => exponentDigits negative significand start false s
  | '-' :: s => exponentDigits negative significand start true s
  | s => exponentDigits negative significand start false s

/-- The exponent, if there is one, of a number with a fraction or more digits than fit. -/
def exponentOrEnd (negative : Bool) (significand : Nat) (start : Int) :
    List Char → Except Fault (Number × List Char)
  | 'e' :: s | 'E' :: s => exponentPart negative significand start s
  | s => floating negative significand start s

/-- The fraction after its point; digits that no longer fit are dropped. -/
def fractionPart (negative : Bool) (significand : Nat) (start : Int) (s : List Char) :
    Except Fault (Number × List Char) :=
  let run := s.takeWhile Text.isDigit
  let after := s.dropWhile Text.isDigit
  match run with
  | [] => match after with
    | [] => refuseHere .endInValue []
    | _ => refuse .badNumber after
  | _ =>
    let (significand, left) := accumulate 0x10000000000000000 significand run
    exponentOrEnd negative significand (start - (run.length - left.length : Nat)) after

/-- A number without fraction and exponent. A negative zero and what lies below the signed range
are doubles. -/
def wholeNumber (negative : Bool) (n : Nat) : Number :=
  if negative then
    if n = 0 ∨ 0x8000000000000000 < n then .double (Double.ofNat n).negate else .int (-n)
  else .int n

/-- What may follow the whole part of a number. -/
def afterWhole (negative : Bool) (n : Nat) : List Char → Except Fault (Number × List Char)
  | '.' :: s => fractionPart negative n 0 s
  | 'e' :: s | 'E' :: s => exponentPart negative n 0 s
  | s => .ok (wholeNumber negative n, s)

/-- What may follow the whole part of a number of which some digits no longer fit. -/
def afterDigits (negative : Bool) (n : Nat) (left s : List Char) :
    Except Fault (Number × List Char) :=
  if left.isEmpty then afterWhole negative n s
  else
    match s with
    | '.' :: t => fractionPart negative n left.length t
    | t => exponentOrEnd negative n left.length t

/-- A number without its minus sign. -/
def unsigned (negative : Bool) : Reader Number
  | [] => refuseHere .endInValue []
  | c :: s =>
    if c = '0' then
      match s with
      | d :: _ => if Text.isDigit d then refuse .badNumber s else afterWhole negative 0 s
      | [] => afterWhole negative 0 s
    else if Text.isDigit c then
      let run := (c :: s).takeWhile Text.isDigit
      let after := (c :: s).dropWhile Text.isDigit
      let (n, left) := accumulate 0x10000000000000000 0 run
      afterDigits negative n left after
    else refuse .badNumber (c :: s)

/-- A number. -/
def number : Reader Number
  | '-' :: s => unsigned true s
  | s => unsigned false s

/-! ## Strings -/

/-- The four hexadecimal digits of an escape. Four bytes are taken whatever they are. -/
def fourHex (s : List Char) : Except Fault Nat :=
  if Text.byteSize (s.take 4) < 4 then refuseHere .endInString []
  else
    match (s.take 4).map Text.hexValue? with
    | [some a, some b, some c, some d] => .ok (((a * 16 + b) * 16 + c) * 16 + d)
    | _ => .error ⟨.badEscape, s, 4⟩

/-- The second half of a surrogate pair, after the first half's digits. -/
def lowSurrogate (high : Nat) (s : List Char) : Except Fault Char :=
  match s with
  | [] => refuseHere .endInString []
  | '\\' :: t =>
    match t with
    | [] => refuseHere .endInString []
    | 'u' :: u => do
      let low ← fourHex u
      if 0xDC00 ≤ low ∧ low ≤ 0xDFFF then
        .ok (Char.ofNat (0x10000 + (high - 0xD800) * 0x400 + (low - 0xDC00)))
      else refuseHere .loneSurrogate (u.drop 4)
    | _ => refuse .halfSurrogate t
  | _ => refuse .halfSurrogate s

/-- The character of an escape after its backslash, and the length of the escape. -/
def escape : List Char → Except Fault (Char × Nat)
  | [] => refuseHere .endInString []
  | '"' :: _ => .ok ('"', 1)
  | '\\' :: _ => .ok ('\\', 1)
  | '/' :: _ => .ok ('/', 1)
  | 'b' :: _ => .ok ('\x08', 1)
  | 'f' :: _ => .ok ('\x0c', 1)
  | 'n' :: _ => .ok ('\n', 1)
  | 'r' :: _ => .ok ('\r', 1)
  | 't' :: _ => .ok ('\t', 1)
  | 'u' :: s => do
    let n ← fourHex s
    if 0xDC00 ≤ n ∧ n ≤ 0xDFFF then refuseHere .loneSurrogate (s.drop 4)
    else if 0xD800 ≤ n ∧ n ≤ 0xDBFF then
      let c ← lowSurrogate n (s.drop 4)
      .ok (c, 11)
    else .ok (Char.ofNat n, 5)
  | s => refuse .badEscape s

/-- The characters of a string after its opening quote. -/
def stringTail (s : List Char) : Except Fault (List Char × List Char) :=
  match s with
  | [] => refuseHere .endInString []
  | c :: s =>
    if c = '"' then .ok ([], s)
    else if c = '\\' then
      match escape s with
      | .error e => .error e
      | .ok (d, n) => (stringTail (s.drop n)).map fun r => (d :: r.1, r.2)
    else if c.toNat < 0x20 then refuse .controlCharacter (c :: s)
    else (stringTail s).map fun r => (c :: r.1, r.2)
termination_by s.length
decreasing_by all_goals simp only [List.length_drop, List.length_cons]; omega

/-- A string after its opening quote. -/
def string : Reader String := fun s => (stringTail s).map fun r => (String.ofList r.1, r.2)

/-- The length of an escape that is skipped, after its backslash. -/
def escapeLength : List Char → Except Fault Nat
  | [] => refuseHere .endInString []
  | 'u' :: s => (fourHex s).map fun _ => 5
  | c :: s =>
    if c ∈ ['"', '\\', '/', 'b', 'f', 'n', 'r', 't'] then .ok 1 else refuse .badEscape (c :: s)

/-- The text after a string that is skipped, from behind its opening quote. -/
def skipString (s : List Char) : Except Fault (List Char) :=
  match s with
  | [] => refuseHere .endInString []
  | c :: s =>
    if c = '"' then .ok s
    else if c = '\\' then
      match escapeLength s with
      | .error e => .error e
      | .ok n => skipString (s.drop n)
    else if c.toNat < 0x20 then refuseHere .controlCharacter (c :: s)
    else skipString s
termination_by s.length
decreasing_by all_goals simp only [List.length_drop, List.length_cons]; omega

/-! ## Lists and objects -/

/-- After a closing bracket was due: passes it, and reports a fault of the list otherwise. -/
def closeList (s : List Char) : Except Fault (List Char) :=
  match skipSpace s with
  | [] => refuseHere .endInList []
  | ']' :: s => .ok s
  | ',' :: s =>
    match skipSpace s with
    | ']' :: t => refuse .trailingComma (']' :: t)
    | t => refuse .trailingCharacters t
  | t => refuse .trailingCharacters t

/-- After a closing brace was due: passes it, and reports a fault of the object otherwise. -/
def closeObject (s : List Char) : Except Fault (List Char) :=
  match skipSpace s with
  | [] => refuseHere .endInObject []
  | '\x7d' :: s => .ok s
  | ',' :: s => refuse .trailingComma (',' :: s)
  | t => refuse .trailingCharacters t

/-- The next item of a list: its text, or `none` before the closing bracket. -/
def nextItem (first : Bool) (s : List Char) : Except Fault (Option (List Char)) :=
  match skipSpace s with
  | [] => refuseHere .endInList []
  | ']' :: _ => .ok none
  | c :: t =>
    if first then .ok (some (c :: t))
    else if c = ',' then
      match skipSpace t with
      | [] => refuseHere .endInValue []
      | ']' :: u => refuse .trailingComma (']' :: u)
      | u => .ok (some u)
    else refuse .expectedListComma (c :: t)

/-- The next member of an object: the text behind the opening quote of its name, or `none` before
the closing brace. -/
def nextMember (first : Bool) (s : List Char) : Except Fault (Option (List Char)) :=
  match skipSpace s with
  | [] => refuseHere .endInObject []
  | '\x7d' :: _ => .ok none
  | c :: t =>
    if first then
      if c = '"' then .ok (some t) else refuse .keyNotString (c :: t)
    else if c = ',' then
      match skipSpace t with
      | [] => refuseHere .endInValue []
      | '"' :: u => .ok (some u)
      | '\x7d' :: u => refuse .trailingComma ('\x7d' :: u)
      | u => refuse .keyNotString u
    else refuse .expectedObjectComma (c :: t)

/-- The colon after a name. -/
def colon (s : List Char) : Except Fault (List Char) :=
  match skipSpace s with
  | [] => refuseHere .endInObject []
  | ':' :: s => .ok s
  | t => refuse .expectedColon t

/-- The items of a list after its opening bracket, up to its closing bracket. Every item takes at
least one character, so `fuel` is no limit when it is the length of the text. -/
def items {α : Type} (one : Reader α) : Nat → Bool → Reader (List α)
  | 0, _, s => refuseHere .endInList s
  | fuel + 1, first, s => do
    match ← nextItem first s with
    | none => .ok ([], s)
    | some s =>
      let (x, s) ← one s
      let (xs, s) ← items one fuel false s
      .ok (x :: xs, s)

/-- The members of an object after its opening brace, up to its closing brace. What a member adds
to the state is up to `one`, which starts behind the name. -/
def members {σ : Type} (one : σ → String → Reader σ) : Nat → Bool → σ → Reader σ
  | 0, _, _, s => refuseHere .endInObject s
  | fuel + 1, first, state, s => do
    match ← nextMember first s with
    | none => .ok (state, s)
    | some s =>
      let (name, s) ← string s
      let (state, s) ← one state name s
      members one fuel false state s

/-! ## Values -/

/-- The first letters of the three words, with the rest of each and its value. -/
def wordFrom? : Char → Option (List Char × Json)
  | 'n' => some ("ull".toList, .null)
  | 't' => some ("rue".toList, .bool true)
  | 'f' => some ("alse".toList, .bool false)
  | _ => none

/-- A value that is not a list or an object, from its first character on. -/
def scalar (s : List Char) : Except Fault (Json × List Char) :=
  match s with
  | [] => refuseHere .endInValue []
  | c :: t =>
    match wordFrom? c with
    | some (w, v) => (word w t).map fun t => (v, t)
    | none =>
      if c = '"' then (string t).map fun r => (.string r.1, r.2)
      else if c = '-' ∨ Text.isDigit c then (number s).map fun r => (.number r.1, r.2)
      else refuse .expectedValue s

/-- A value whose lists and objects have their parts read by `inner`; without it no bracket may be
opened. -/
def valueWith (inner : Option (Reader Json)) : Reader Json := fun s =>
  match skipSpace s with
  | '[' :: t =>
    match inner with
    | none => refuse .tooDeep ('[' :: t)
    | some one => do
      let (xs, s) ← items one (t.length + 1) true t
      let s ← closeList s
      .ok (.array xs, s)
  | '\x7b' :: t =>
    match inner with
    | none => refuse .tooDeep ('\x7b' :: t)
    | some one => do
      let add := fun (ms : Dictionary Json) (name : String) (s : List Char) => do
        let s ← colon s
        let (v, s) ← one s
        Except.ok (Dictionary.insert name v ms, s)
      let (ms, s) ← members add (t.length + 1) true [] t
      let s ← closeObject s
      .ok (.object ms, s)
  | t => scalar t

/-- A value with at most `depth` brackets open at once. -/
def value : Nat → Reader Json
  | 0 => valueWith none
  | depth + 1 => valueWith (some (value depth))

/-! ## Skipped values -/

/-- The kinds of bracket that a skipped value can have open. -/
inductive Bracket where
  | square
  | curly
  deriving DecidableEq, Repr

/-- What is due while a value is skipped. -/
inductive Due where
  /-- A value. -/
  | value
  /-- The first part or the end of the innermost bracket. -/
  | firstOrEnd
  /-- A comma or the end of the innermost bracket. -/
  | commaOrEnd
  /-- An item or a member of the innermost bracket. -/
  | part
  deriving DecidableEq, Repr

/-- Digits of a skipped number after its point or its exponent's sign. -/
def skipDigits : List Char → Option (List Char)
  | c :: s => if Text.isDigit c then some (s.dropWhile Text.isDigit) else none
  | [] => none

/-- The exponent of a skipped number after its letter. -/
def skipExponent (s : List Char) : Except Fault (List Char) :=
  let t := match s with
    | '+' :: t | '-' :: t => t
    | t => t
  match skipDigits t with
  | some u => .ok u
  | none => refuse .badNumber t

/-- What may follow the whole part of a skipped number. -/
def skipAfterWhole : List Char → Except Fault (List Char)
  | '.' :: s =>
    match skipDigits s with
    | none => refuse .badNumber s
    | some ('e' :: t) | some ('E' :: t) => skipExponent t
    | some t => .ok t
  | 'e' :: s | 'E' :: s => skipExponent s
  | s => .ok s

/-- A skipped number without its minus sign; no value is too large. -/
def skipNumber : List Char → Except Fault (List Char)
  | '0' :: s =>
    match s with
    | d :: _ => if Text.isDigit d then refuse .badNumber s else skipAfterWhole s
    | [] => skipAfterWhole s
  | s =>
    match skipDigits s with
    | some t => skipAfterWhole t
    | none => refuse .badNumber s

/-- A skipped value that opens no bracket. -/
def skipScalar (s : List Char) : Except Fault (List Char) :=
  match s with
  | [] => refuseHere .endInValue []
  | c :: t =>
    match wordFrom? c with
    | some (w, _) => word w t
    | none =>
      if c = '"' then skipString t
      else if c = '-' then skipNumber t
      else if Text.isDigit c then skipNumber s
      else refuse .expectedValue s

/-- Skips on until every open bracket is closed. Each step takes a character or is followed by one
that does, so a fuel of thrice the length is no limit. -/
def skipFrom : Nat → Due → List Bracket → List Char → Except Fault (List Char)
  | 0, _, _, s => .ok s
  | fuel + 1, .value, open_, s =>
    match skipSpace s with
    | '[' :: t => skipFrom fuel .firstOrEnd (.square :: open_) t
    | '\x7b' :: t => skipFrom fuel .firstOrEnd (.curly :: open_) t
    | t => do
      let t ← skipScalar t
      skipFrom fuel .commaOrEnd open_ t
  | _ + 1, _, [], s => .ok s
  | fuel + 1, .part, .square :: outer, s => skipFrom fuel .value (.square :: outer) s
  | fuel + 1, .part, .curly :: outer, s =>
    match skipSpace s with
    | [] => refuseHere .endInObject []
    | '"' :: t => do
      let t ← skipString t
      let t ← colon t
      skipFrom fuel .value (.curly :: outer) t
    | t => refuse .keyNotString t
  | fuel + 1, .firstOrEnd, b :: outer, s =>
    match skipSpace s, b with
    | [], .square => refuseHere .endInList []
    | [], .curly => refuseHere .endInObject []
    | ']' :: t, .square => skipFrom fuel .commaOrEnd outer t
    | '\x7d' :: t, .curly => skipFrom fuel .commaOrEnd outer t
    | t, b => skipFrom fuel .part (b :: outer) t
  | fuel + 1, .commaOrEnd, b :: outer, s =>
    match skipSpace s, b with
    | [], .square => refuseHere .endInList []
    | [], .curly => refuseHere .endInObject []
    | ',' :: t, b => skipFrom fuel .part (b :: outer) t
    | ']' :: t, .square => skipFrom fuel .commaOrEnd outer t
    | '\x7d' :: t, .curly => skipFrom fuel .commaOrEnd outer t
    | t, .square => refuse .expectedListComma t
    | t, .curly => refuse .expectedObjectComma t

/-- The text behind a value of any depth. -/
def skipValue (s : List Char) : Except Fault (List Char) :=
  skipFrom (3 * s.length + 3) .value [] s

/-- What follows a whole value may only be white space. -/
def finish {α : Type} (r : α × List Char) : Except Fault α :=
  match skipSpace r.2 with
  | [] => .ok r.1
  | t => refuse .trailingCharacters t

end Reader

/-- The number of brackets that a text may have open at once. -/
def maxDepth : Nat := 127

/-- Reads a text that holds one value. -/
def read (text : String) : Except Fault Json := do
  let r ← Reader.value maxDepth text.toList
  Reader.finish r

end Mishap.Json
