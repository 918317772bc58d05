/-!
# The civil calendar

Days are counted from 1970-01-01 in the proleptic Gregorian calendar. Years are shifted to begin in
March, so that the leap day ends a year and the months before it follow one linear rule; four
hundred such years make an era of 146097 days.
-/

namespace Mishap.Time

/-- A calendar date. -/
structure Date where
  year : Int
  month : Nat
  day : Nat
  deriving DecidableEq, Repr, Inhabited

/-- A leap year of the Gregorian rule. -/
def isLeapYear (year : Int) : Bool := year % 4 == 0 && (year % 100 != 0 || year % 400 == 0)

/-- The number of days of a month. -/
def daysInMonth (year : Int) (month : Nat) : Nat :=
  match month with
  | 2 => if isLeapYear year then 29 else 28
  | 4 | 6 | 9 | 11 => 30
  | _ => 31

namespace Date

/-- The earliest and the latest year that a time may have. -/
def minYear : Int := -262143
def maxYear : Int := 262142

/-- The date exists and its year is one that a time may have. -/
def isValid (d : Date) : Bool :=
  minYear ≤ d.year && d.year ≤ maxYear && 1 ≤ d.month && d.month ≤ 12 && 1 ≤ d.day &&
    d.day ≤ daysInMonth d.year d.month

/-- The number of days from 1970-01-01. -/
def toDays (d : Date) : Int :=
  let year := if d.month ≤ 2 then d.year - 1 else d.year
  let era := year / 400
  let yearOfEra := year % 400
  let month := (d.month + 9) % 12
  let dayOfYear : Int := (153 * month + 2) / 5 + d.day - 1
  let dayOfEra := yearOfEra * 365 + yearOfEra / 4 - yearOfEra / 100 + dayOfYear
  era * 146097 + dayOfEra - 719468

/-- The date that lies a number of days after 1970-01-01. -/
def ofDays (days : Int) : Date :=
  let shifted := days + 719468
  let era := shifted / 146097
  let dayOfEra := shifted % 146097
  let yearOfEra := (dayOfEra - dayOfEra / 1460 + dayOfEra / 36524 - dayOfEra / 146096) / 365
  let dayOfYear := dayOfEra - (365 * yearOfEra + yearOfEra / 4 - yearOfEra / 100)
  let month := (5 * dayOfYear + 2) / 153
  let day := dayOfYear - (153 * month + 2) / 5 + 1
  let civilMonth := if month < 10 then month + 3 else month - 9
  let year := yearOfEra + era * 400
  { year := if civilMonth ≤ 2 then year + 1 else year, month := civilMonth.toNat, day := day.toNat }

/-- The place of the date in its year, counted from one. -/
def ordinal (d : Date) : Nat := (d.toDays - (Date.mk d.year 1 1).toDays).toNat + 1

/-- Days since Monday. -/
def weekday (d : Date) : Nat := ((d.toDays + 3) % 7).toNat

/-- The year to which the week of the date belongs, and the number of that week: a week belongs to
the year that holds its Thursday. -/
def isoWeek (d : Date) : Int × Nat :=
  let thursday := ofDays (d.toDays - d.weekday + 3)
  (thursday.year, (thursday.ordinal - 1) / 7 + 1)

end Date

end Mishap.Time
