import Mishap.Time.Rfc3339

/-!
# Time patterns

A pattern is a text in which a percent sign and one or more letters stand for a part of a time. A
pattern is either understood as a whole (`Pattern.parse?`) and then writes every time, or refused
as a whole: one unknown item refuses it, wherever it stands.
-/

namespace Mishap.Time

/-- How a number is filled up to its width. -/
inductive Fill where
  | none
  | zero
  | space
  deriving DecidableEq, Repr

/-- The numbers that a pattern can show. -/
inductive NumericPart where
  | year
  | century
  | yearOfCentury
  | isoYear
  | isoYearOfCentury
  | quarter
  | month
  | day
  | sundayWeek
  | mondayWeek
  | isoWeek
  | weekdayFromSunday
  | weekdayFromMonday
  | ordinal
  | hour
  | hour12
  | minute
  | second
  | nanosecond
  | timestamp
  deriving DecidableEq, Repr

/-- The parts of a pattern. -/
inductive PatternPart where
  | literal (c : Char)
  | number (n : NumericPart) (fill : Fill)
  | weekdayName (long : Bool)
  | monthName (long : Bool)
  | halfOfDay (upper : Bool)
  /-- A fraction of a second with as many of 3, 6 or 9 digits as show it. -/
  | fraction
  /-- A fraction of a second with a fixed number of digits. -/
  | fractionDigits (digits : Nat) (dot : Bool)
  | zoneName
  /-- The offset from universal time: hours, then as many more parts as told, with or without
  colons. -/
  | offset (parts : Nat) (colons : Bool)
  | rfc3339
  deriving DecidableEq, Repr

namespace Pattern

open PatternPart NumericPart

/-- Numbers filled up with zeros. -/
def padded (n : NumericPart) : PatternPart := .number n .zero

/-- Hours, minutes and seconds with colons. -/
def clockParts : List PatternPart :=
  [padded hour, .literal ':', padded minute, .literal ':', padded second]

/-- Month, day and year of the century with slashes. -/
def slashDate : List PatternPart :=
  [padded month, .literal '/', padded day, .literal '/', padded yearOfCentury]

/-- The parts for which a single letter stands. -/
def letter? (c : Char) : Option (List PatternPart) :=
  match c with
  | 'A' => some [weekdayName true]
  | 'B' => some [monthName true]
  | 'C' => some [padded century]
  | 'D' => some slashDate
  | 'F' => some [padded year, .literal '-', padded month, .literal '-', padded day]
  | 'G' => some [padded isoYear]
  | 'H' => some [padded hour]
  | 'I' => some [padded hour12]
  | 'M' => some [padded minute]
  | 'P' => some [halfOfDay false]
  | 'R' => some [padded hour, .literal ':', padded minute]
  | 'S' => some [padded second]
  | 'T' => some clockParts
  | 'U' => some [padded sundayWeek]
  | 'V' => some [padded isoWeek]
  | 'W' => some [padded mondayWeek]
  | 'X' => some clockParts
  | 'Y' => some [padded year]
  | 'Z' => some [zoneName]
  | 'a' => some [weekdayName false]
  | 'b' | 'h' => some [monthName false]
  | 'c' => some ([weekdayName false, .literal ' ', monthName false, .literal ' ',
      .number day .space, .literal ' '] ++ clockParts ++ [.literal ' ', padded year])
  | 'd' => some [padded day]
  | 'e' => some [.number day .space]
  | 'f' => some [padded nanosecond]
  | 'g' => some [padded isoYearOfCentury]
  | 'j' => some [padded ordinal]
  | 'k' => some [.number hour .space]
  | 'l' => some [.number hour12 .space]
  | 'm' => some [padded month]
  | 'n' => some [.literal '\n']
  | 'p' => some [halfOfDay true]
  | 'q' => some [.number quarter .none]
  | 'r' => some ([padded hour12, .literal ':', padded minute, .literal ':', padded second,
      .literal ' ', halfOfDay true])
  | 's' => some [.number timestamp .none]
  | 't' => some [.literal '\t']
  | 'u' => some [.number weekdayFromMonday .none]
  | 'v' => some [.number day .space, .literal '-', monthName false, .literal '-', padded year]
  | 'w' => some [.number weekdayFromSunday .none]
  | 'x' => some slashDate
  | 'y' => some [padded yearOfCentury]
  | 'z' => some [offset 1 false]
  | '+' => some [rfc3339]
  | '%' => some [.literal '%']
  | _ => none

/-- A single number with another fill. -/
def refill? (fill : Fill) : List PatternPart → Option (List PatternPart)
  | [.number n _] => some [.number n fill]
  | _ => none

/-- The parts behind a percent sign, and the number of characters that name them. -/
def item? : List Char → Option (List PatternPart × Nat)
  | '-' :: c :: _ => (letter? c).bind fun ps => (refill? .none ps).map fun ps => (ps, 2)
  | '_' :: c :: _ => (letter? c).bind fun ps => (refill? .space ps).map fun ps => (ps, 2)
  | '0' :: c :: _ => (letter? c).bind fun ps => (refill? .zero ps).map fun ps => (ps, 2)
  | ':' :: 'z' :: _ => some ([offset 1 true], 2)
  | ':' :: ':' :: 'z' :: _ => some ([offset 2 true], 3)
  | ':' :: ':' :: ':' :: 'z' :: _ => some ([offset 0 true], 4)
  | '.' :: 'f' :: _ => some ([fraction], 2)
  | '.' :: '3' :: 'f' :: _ => some ([fractionDigits 3 true], 3)
  | '.' :: '6' :: 'f' :: _ => some ([fractionDigits 6 true], 3)
  | '.' :: '9' :: 'f' :: _ => some ([fractionDigits 9 true], 3)
  | '3' :: 'f' :: _ => some ([fractionDigits 3 false], 2)
  | '6' :: 'f' :: _ => some ([fractionDigits 6 false], 2)
  | '9' :: 'f' :: _ => some ([fractionDigits 9 false], 2)
  | c :: _ => (letter? c).map fun ps => (ps, 1)
  | [] => none

/-- The parts of a pattern; `none` if it has an item that is not known. -/
def parse? (s : List Char) : Option (List PatternPart) :=
  match s with
  | [] => some []
  | c :: s =>
    if c = '%' then
      match item? s with
      | none => none
      | some (ps, n) => (parse? (s.drop n)).map (ps ++ ·)
    else (parse? s).map (.literal c :: ·)
termination_by s.length
decreasing_by all_goals simp only [List.length_drop, List.length_cons]; omega

/-- The names of the days of the week, from Monday on. -/
def weekdayNames : List String :=
  ["Monday", "Tuesday", "Wednesday", "Thursday", "Friday", "Saturday", "Sunday"]

/-- The names of the months. -/
def monthNames : List String :=
  ["January", "February", "March", "April", "May", "June", "July", "August", "September",
   "October", "November", "December"]

/-- A name in full or its first three letters. -/
def nameChars (long : Bool) (name : String) : List Char :=
  if long then name.toList else name.toList.take 3

/-- Two digits. The tens of a number from 100 on run on behind the digit nine. -/
def twoChars (fill : Fill) (n : Nat) : List Char :=
  let ones := Char.ofNat ('0'.toNat + n % 10)
  match n / 10, fill with
  | 0, .none => [ones]
  | 0, .space => [' ', ones]
  | tens, _ => [Char.ofNat ('0'.toNat + tens), ones]

/-- An integer filled up to a width, with a sign if that is asked for or it is negative. -/
def wideChars (fill : Fill) (width : Nat) (sign : Bool) (i : Int) : List Char :=
  let mark := if i < 0 then ['-'] else if sign then ['+'] else []
  let digits := Text.decimal i.natAbs
  match fill with
  | .none => mark ++ digits
  | .zero => mark ++ Text.padLeft '0' (width - mark.length) digits
  | .space => Text.padLeft ' ' width (mark ++ digits)

/-- A year: four digits, and with a sign if it needs more or lies before year zero. -/
def yearChars (fill : Fill) (y : Int) : List Char :=
  if 0 ≤ y ∧ y < 10000 then wideChars fill 4 false y else wideChars fill 5 true y

/-- The number of the week in the year when weeks begin with the day that lies `lag` days after
Monday; the days before the first such day are in week zero. -/
def weekOfYear (d : Date) (lag : Nat) : Nat := (d.ordinal + 6 - (d.weekday + 7 - lag) % 7) / 7

/-- The text of a number of a time. -/
def numberChars (t : Instant) (fill : Fill) (n : NumericPart) : List Char :=
  let c := t.civil
  let d := c.date
  let nanos := c.nanos % 1000000000
  match n with
  | year => yearChars fill d.year
  | century => twoChars fill ((d.year / 100) % 256).toNat
  | yearOfCentury => twoChars fill (d.year % 100).toNat
  | isoYear => yearChars fill d.isoWeek.1
  | isoYearOfCentury => twoChars fill (d.isoWeek.1 % 100).toNat
  | quarter => Text.decimal ((d.month - 1) / 3 + 1)
  | month => twoChars fill d.month
  | day => twoChars fill d.day
  | sundayWeek => twoChars fill (weekOfYear d 6)
  | mondayWeek => twoChars fill (weekOfYear d 0)
  | isoWeek => twoChars fill d.isoWeek.2
  | weekdayFromSunday => Text.decimal ((d.weekday + 1) % 7)
  | weekdayFromMonday => Text.decimal (d.weekday + 1)
  | ordinal => wideChars fill 3 false d.ordinal
  | hour => twoChars fill c.hour
  | hour12 => twoChars fill ((c.hour + 11) % 12 + 1)
  | minute => twoChars fill c.minute
  | second => twoChars fill (c.second + c.nanos / 1000000000)
  | nanosecond => wideChars fill 9 false nanos
  | timestamp => wideChars fill 9 false t.seconds

/-- The text of a part of a time. -/
def partChars (t : Instant) : PatternPart → List Char
  | .literal c => [c]
  | .number n fill => numberChars t fill n
  | .weekdayName long => nameChars long (weekdayNames.getD t.civil.date.weekday "")
  | .monthName long => nameChars long (monthNames.getD (t.civil.date.month - 1) "")
  | .halfOfDay upper =>
    let half := if t.civil.hour < 12 then "AM" else "PM"
    if upper then half.toList else half.toList.map Char.toLower
  | .fraction => Rfc3339.fractionChars t.nanos
  | .fractionDigits digits dot =>
    (if dot then ['.'] else []) ++
      Text.zeroPadded digits (t.nanos % 1000000000 / Nat.pow 10 (9 - digits))
  | .zoneName => "UTC".toList
  | .offset parts colons =>
    "+00".toList ++ (List.replicate parts ((if colons then [':'] else []) ++ ['0', '0'])).flatten
  | .rfc3339 =>
    let c := t.civil
    Rfc3339.dateChars c.date ++ 'T' :: Rfc3339.clockChars c ++ Rfc3339.fractionChars c.nanos ++
      "+00:00".toList

/-- Writes a time by a pattern, if the pattern is understood. -/
def write? (pattern : String) (t : Instant) : Option String :=
  (parse? pattern.toList).map fun ps => String.ofList (ps.flatMap (partChars t))

end Pattern

end Mishap.Time
