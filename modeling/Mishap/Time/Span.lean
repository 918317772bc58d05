import Mishap.Text.Blank
import Mishap.Text.Digits

/-!
# Spans of time

A span is a number of whole seconds and of nanoseconds within the second. Its written form lists
the parts that are not zero, from years of 365.25 days and months of 30.44 days down to
nanoseconds; the reader accepts longer unit names, blanks and decimal fractions that come out even
as well.
-/

namespace Mishap.Time

/-- A length of time. -/
structure Span where
  seconds : Nat
  nanos : Nat
  deriving DecidableEq, Repr, Inhabited

/-- The units of a written span. -/
inductive SpanUnit where
  | nanosecond | microsecond | millisecond | second | minute | hour | day | week | month | year
  deriving DecidableEq, Repr

namespace SpanUnit

/-- The names that the reader accepts. -/
def ofName? (name : List Char) : Option SpanUnit :=
  match String.ofList name with
  | "nanos" | "nsec" | "ns" => some nanosecond
  | "usec" | "us" | "µs" => some microsecond
  | "millis" | "msec" | "ms" => some millisecond
  | "seconds" | "second" | "secs" | "sec" | "s" => some second
  | "minutes" | "minute" | "min" | "mins" | "m" => some minute
  | "hours" | "hour" | "hr" | "hrs" | "h" => some hour
  | "days" | "day" | "d" => some day
  | "weeks" | "week" | "wk" | "wks" | "w" => some week
  | "months" | "month" | "M" => some month
  | "years" | "year" | "yr" | "yrs" | "y" => some year
  | _ => none

/-- The unit in nanoseconds, for units below a second, else in seconds. -/
def size : SpanUnit → Nat
  | nanosecond => 1
  | microsecond => 1000
  | millisecond => 1000000
  | second => 1
  | minute => 60
  | hour => 3600
  | day => 86400
  | week => 604800
  | month => 2630016
  | year => 31557600

/-- The unit is a part of a second. -/
def isFine : SpanUnit → Bool
  | nanosecond | microsecond | millisecond => true
  | _ => false

end SpanUnit

namespace Span

/-- The length in nanoseconds. -/
def toNanos (s : Span) : Nat := s.seconds * 1000000000 + s.nanos

/-- Seconds are counted in sixty-four bits. -/
def secondsLimit : Nat := 0x10000000000000000

/-- The nanoseconds stay below a second and the seconds fit their word. -/
def Valid (s : Span) : Prop := s.seconds < secondsLimit ∧ s.nanos < 1000000000

/-- The span of a number of seconds and any number of nanoseconds. -/
def ofParts (seconds nanos : Nat) : Span := ⟨seconds + nanos / 1000000000, nanos % 1000000000⟩

/-- A product that fits sixty-four bits. -/
def times? (a b : Nat) : Option Nat := if a * b < secondsLimit then some (a * b) else none

/-- Adds seconds and nanoseconds, unless the sum is out of range. -/
def add? (s : Span) (seconds nanos : Nat) : Option Span :=
  let total := s.nanos + nanos
  let sum := s.seconds + seconds + total / 1000000000
  if total < secondsLimit ∧ sum < secondsLimit then some ⟨sum, total % 1000000000⟩ else none

/-- Adds a whole number of units. -/
def addUnits? (s : Span) (n : Nat) (u : SpanUnit) : Option Span := do
  let amount ← times? n u.size
  if u.isFine then s.add? 0 amount else s.add? amount 0

/-- The fraction `num / den` of a size, if it is a whole number. -/
def fractionOf? (num den size : Nat) : Option Nat := do
  let n ← times? num size
  if n % den = 0 then some (n / den) else none

/-- Adds a fraction of a unit. It has to come out even: in nanoseconds up to a minute, in seconds
beyond. A nanosecond has no fractions. -/
def addFraction? (s : Span) (num den : Nat) (u : SpanUnit) : Option Span := do
  match u with
  | .nanosecond => none
  | .microsecond | .millisecond => s.add? 0 (← fractionOf? num den u.size)
  | .second | .minute => s.add? 0 (← fractionOf? num den (u.size * 1000000000))
  | _ => s.add? (← fractionOf? num den u.size) 0

/-- A letter of a unit name. -/
def isUnitLetter (c : Char) : Bool :=
  ('a' ≤ c && c ≤ 'z') || ('A' ≤ c && c ≤ 'Z') || c == 'µ'

/-- Where the reader stands. -/
inductive Place where
  /-- Before a number. -/
  | start
  /-- Inside the whole part of a number. -/
  | whole (n : Nat)
  /-- Inside the fraction `num / den` after the whole part. -/
  | fraction (n num den : Nat)
  /-- Inside a unit name, whose letters are kept in reverse. -/
  | unit (n : Nat) (fraction : Option (Nat × Nat)) (name : List Char)

/-- Closes a number with its unit. -/
def close? (s : Span) (n : Nat) (fraction : Option (Nat × Nat)) (name : List Char) :
    Option Span := do
  let u ← SpanUnit.ofName? name.reverse
  let s ← s.addUnits? n u
  match fraction with
  | some (num, den) => s.addFraction? num den u
  | none => some s

/-- A number with one digit more, if it fits sixty-four bits. -/
def shift? (n : Nat) (c : Char) : Option Nat :=
  let n := 10 * n + Text.digitValue c
  if n < secondsLimit then some n else none

/-- Reads on from a place, adding to what was read. Blanks may stand anywhere but inside a unit
name, and a number may follow a unit directly. -/
def readFrom : Place → Span → List Char → Option Span
  | .start, s, [] => some s
  | .whole _, _, [] => none
  | .fraction _ _ _, _, [] => none
  | .unit n f name, s, [] => close? s n f name
  | .start, s, c :: rest =>
    if Text.isDigit c then readFrom (.whole (Text.digitValue c)) s rest
    else if Text.isBlank c then readFrom .start s rest
    else none
  | .whole n, s, c :: rest =>
    if Text.isDigit c then (shift? n c).bind fun n => readFrom (.whole n) s rest
    else if Text.isBlank c then readFrom (.whole n) s rest
    else if isUnitLetter c then readFrom (.unit n none [c]) s rest
    else if c = '.' then readFrom (.fraction n 0 1) s rest
    else none
  | .fraction n num den, s, c :: rest =>
    if Text.isDigit c then
      if 10 * den < secondsLimit then
        (shift? num c).bind fun num => readFrom (.fraction n num (10 * den)) s rest
      else none
    else if Text.isBlank c then readFrom (.fraction n num den) s rest
    else if isUnitLetter c && den != 1 then readFrom (.unit n (some (num, den)) [c]) s rest
    else none
  | .unit n f name, s, c :: rest =>
    if Text.isDigit c then
      (close? s n f name).bind fun s => readFrom (.whole (Text.digitValue c)) s rest
    else if Text.isBlank c then (close? s n f name).bind fun s => readFrom .start s rest
    else if isUnitLetter c then readFrom (.unit n f (c :: name)) s rest
    else none

/-- Reads a span. A bare zero needs no unit; a text without a number is refused. -/
def read? (text : String) : Option Span :=
  if text = "0" then some ⟨0, 0⟩
  else if text.toList.all Text.isBlank then none
  else readFrom .start ⟨0, 0⟩ text.toList

/-- The parts of a span in written order: amount, unit text, and whether the unit has a plural. -/
def parts (s : Span) : List (Nat × String × Bool) :=
  let inYear := s.seconds % 31557600
  let inMonth := inYear % 2630016
  let inDay := inMonth % 86400
  [(s.seconds / 31557600, "year", true), (inYear / 2630016, "month", true),
   (inMonth / 86400, "day", true), (inDay / 3600, "h", false), (inDay / 60 % 60, "m", false),
   (inDay % 60, "s", false), (s.nanos / 1000000, "ms", false),
   (s.nanos / 1000 % 1000, "us", false), (s.nanos % 1000, "ns", false)]

/-- One written part. -/
def partText (p : Nat × String × Bool) : String :=
  String.ofList (Text.decimal p.1) ++ p.2.1 ++ (if p.2.2 && 1 < p.1 then "s" else "")

/-- The written form: the parts that are not zero, separated by blanks. -/
def text (s : Span) : String :=
  match s.parts.filter (0 < ·.1) with
  | [] => "0s"
  | ps => String.intercalate " " (ps.map partText)

/-- A number with a fraction of `places` digits, less its trailing zeros. -/
def withFraction (whole fraction places : Nat) : List Char :=
  let digits := (Text.zeroPadded places fraction).reverse.dropWhile (· == '0') |>.reverse
  Text.decimal whole ++ (if digits.isEmpty then [] else '.' :: digits)

/-- The diagnostic form: a decimal number of the largest of `s`, `ms`, `µs`, `ns` that reaches
one. -/
def debugText (s : Span) : String :=
  if 0 < s.seconds then String.ofList (withFraction s.seconds s.nanos 9) ++ "s"
  else if 1000000 ≤ s.nanos then
    String.ofList (withFraction (s.nanos / 1000000) (s.nanos % 1000000) 6) ++ "ms"
  else if 1000 ≤ s.nanos then
    String.ofList (withFraction (s.nanos / 1000) (s.nanos % 1000) 3) ++ "µs"
  else String.ofList (Text.decimal s.nanos) ++ "ns"

end Span

end Mishap.Time
