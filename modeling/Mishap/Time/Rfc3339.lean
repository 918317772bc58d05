import Mishap.Time.Instant

/-!
# RFC 3339 times

Writing gives four-digit years, a sign and at least four digits outside 0 to 9999, and a fraction
of 0, 3, 6 or 9 digits. Reading is lenient: blanks around the separators, one-digit fields, signed
years, any number of fraction digits, `T` or a blank before the time, and offsets with or
without a colon. What is refused names its cause, the first in reading order.
-/

namespace Mishap.Time

/-- Why a text is not a time. -/
inductive TimeFault where
  | outOfRange
  | impossible
  | invalid
  | tooShort
  | tooLong
  deriving DecidableEq, Repr

/-- The wording of a fault. -/
def TimeFault.message : TimeFault → String
  | outOfRange => "input is out of range"
  | impossible => "no possible date and time matching input"
  | invalid => "input contains invalid characters"
  | tooShort => "premature end of input"
  | tooLong => "trailing input"

namespace Rfc3339

/-- The text of a year. -/
def yearChars (year : Int) : List Char :=
  if 0 ≤ year ∧ year ≤ 9999 then Text.zeroPadded 4 year.toNat
  else (if year < 0 then '-' else '+') :: Text.zeroPadded 4 year.natAbs

/-- A date with dashes. -/
def dateChars (d : Date) : List Char :=
  yearChars d.year ++ '-' :: Text.zeroPadded 2 d.month ++ '-' :: Text.zeroPadded 2 d.day

/-- A time of day with colons; a leap second shows as one more second. -/
def clockChars (c : Civil) : List Char :=
  Text.zeroPadded 2 c.hour ++ ':' :: Text.zeroPadded 2 c.minute ++
    ':' :: Text.zeroPadded 2 (c.second + c.nanos / 1000000000)

/-- The fraction of a second with as few of 0, 3, 6 or 9 digits as show it. -/
def fractionChars (nanos : Nat) : List Char :=
  let n := nanos % 1000000000
  if n = 0 then []
  else if n % 1000000 = 0 then '.' :: Text.zeroPadded 3 (n / 1000000)
  else if n % 1000 = 0 then '.' :: Text.zeroPadded 6 (n / 1000)
  else '.' :: Text.zeroPadded 9 n

/-- The whole text with its fraction. -/
def write (t : Instant) : String :=
  let c := t.civil
  String.ofList (dateChars c.date ++ 'T' :: clockChars c ++ fractionChars c.nanos ++ ['Z'])

/-- The text in whole seconds. -/
def writeSeconds (t : Instant) : String :=
  let c := t.civil
  String.ofList (dateChars c.date ++ 'T' :: clockChars c ++ ['Z'])

/-- Reads a part of a time and gives the rest of the text. -/
abbrev Reader (α : Type) := List Char → Except TimeFault (α × List Char)

/-- Up to `width` digits, at least one; a number beyond 64 bits is out of range. -/
def digits (width : Option Nat) : Reader Nat
  | [] => .error .tooShort
  | s@(c :: _) =>
    if Text.isDigit c then
      let run := (match width with | some w => s.take w | none => s).takeWhile Text.isDigit
      let n := Text.decimalValue run
      if n < 0x8000000000000000 then .ok (n, s.drop run.length) else .error .outOfRange
    else .error .invalid

/-- A field of one or two digits after any blanks. -/
def field : Reader Nat := fun s => digits (some 2) (Text.skipBlanks s)

/-- A field whose value has to lie between two bounds. -/
def fieldBetween (low high : Nat) : Reader Nat := fun s => do
  let (n, s) ← field s
  if low ≤ n ∧ n ≤ high then .ok (n, s) else .error .outOfRange

/-- A year: up to four digits, or any number of them after a sign. -/
def year : Reader Int := fun s => do
  let (y, s) ← match Text.skipBlanks s with
    | '-' :: s => (do let (n, s) ← digits none s; .ok (-(n : Int), s))
    | '+' :: s => (do let (n, s) ← digits none s; .ok ((n : Int), s))
    | s => (do let (n, s) ← digits (some 4) s; .ok ((n : Int), s))
  if -0x80000000 ≤ y ∧ y < 0x80000000 then .ok (y, s) else .error .outOfRange

/-- One given character after any blanks. -/
def mark (c : Char) : List Char → Except TimeFault (List Char) := fun s =>
  match Text.skipBlanks s with
  | [] => .error .tooShort
  | d :: s => if c = d then .ok s else .error .invalid

/-- The separator between date and time. -/
def separator : List Char → Except TimeFault (List Char)
  | [] => .error .tooShort
  | c :: s => if c = 't' ∨ c = 'T' ∨ c = ' ' then .ok s else .error .invalid

/-- An optional fraction of a second, in nanoseconds; digits after the ninth are dropped. -/
def fraction : Reader Nat
  | '.' :: s => do
    let (_, _) ← digits (some 9) s
    let run := s.takeWhile Text.isDigit
    .ok (Text.decimalValue (run.take 9) * Nat.pow 10 (9 - (run.take 9).length), s.drop run.length)
  | s => .ok (0, s)

/-- Two ASCII digits at the front. Anything longer than one byte counts as two characters. -/
def twoDigits : Reader (Nat × Nat)
  | a :: b :: s =>
    if Text.isDigit a && Text.isDigit b then .ok ((Text.digitValue a, Text.digitValue b), s)
    else .error .invalid
  | [a] => .error (if a.utf8Size < 2 then .tooShort else .invalid)
  | [] => .error .tooShort

/-- Hours and minutes of an offset after its sign, in seconds. -/
def offsetSize : Reader Nat := fun s => do
  let ((h1, h2), s) ← twoDigits s
  let s := s.dropWhile fun c => c == ':' || Text.isBlank c
  let ((m1, m2), s) ← twoDigits s
  if m1 ≤ 5 then .ok ((10 * h1 + h2) * 3600 + (10 * m1 + m2) * 60, s) else .error .outOfRange

/-- The offset from universal time, in seconds. -/
def offset : Reader Int
  | 'Z' :: s | 'z' :: s => .ok (0, s)
  | '+' :: s => do let (n, s) ← offsetSize s; .ok (n, s)
  | '-' :: s | '\u2212' :: s => do let (n, s) ← offsetSize s; .ok (-(n : Int), s)
  | [] => .error .tooShort
  | a :: b :: c :: s =>
    if [a, b, c].map Char.toUpper = ['U', 'T', 'C'] then .ok (0, s) else .error .invalid
  | _ => .error .invalid

/-- The local fields of a time and its offset. -/
def fields : Reader (Civil × Int) := fun s => do
  let (y, s) ← year s
  let s ← mark '-' s
  let (month, s) ← fieldBetween 1 12 s
  let s ← mark '-' s
  let (day, s) ← fieldBetween 1 31 s
  let s ← separator s
  let (hour, s) ← fieldBetween 0 23 s
  let s ← mark ':' s
  let (minute, s) ← fieldBetween 0 59 s
  let s ← mark ':' s
  let (second, s) ← fieldBetween 0 60 s
  let (nanos, s) ← fraction s
  let (off, s) ← offset (Text.skipBlanks s)
  let leap := second / 60
  .ok (({ date := ⟨y, month, day⟩, hour, minute, second := second - leap,
          nanos := nanos + leap * 1000000000 }, off), s)

/-- Reads a whole text. -/
def read (text : String) : Except TimeFault Instant := do
  let ((c, off), s) ← fields text.toList
  unless (Text.skipBlanks s).isEmpty do .error .tooLong
  unless c.date.isValid do .error .outOfRange
  unless off.natAbs < 86400 do .error .outOfRange
  let t := c.toInstant
  let t : Instant := { t with seconds := t.seconds - off }
  unless t.inRange do .error .impossible
  .ok t

end Rfc3339

end Mishap.Time
