import Mishap.Time.Calendar
import Mathlib.Tactic.IntervalCases

/-!
# Dates and days

Each day has its date: it exists, and the day of that date is the day again (`toDays_ofDays`,
`isValid_ofDays`). Years are taken to begin in March, so that a leap day ends its year.
-/

namespace Mishap.Time

/-! ### Years of an era -/

/-- The days of an era before the first of March of one of its years. -/
def daysBefore (year : Int) : Int := 365 * year + year / 4 - year / 100 + year / 400

/-- The days of an era up to one of them, without leap days. -/
def commonDays (day : Int) : Int := day - day / 1460 + day / 36524 - day / 146096

private theorem commonDays_mono {d e : Int} (h : d ≤ e) : commonDays d ≤ commonDays e := by
  obtain ⟨k, rfl⟩ := Int.le.dest h
  clear h
  induction k with
  | zero => simp
  | succ k ih =>
    have hstep : commonDays (d + k) ≤ commonDays (d + k + 1) := by
      simp only [commonDays]
      omega
    have hnext : d + ((k + 1 : Nat) : Int) = d + k + 1 := by omega
    rw [hnext]
    exact Int.le_trans ih hstep

/-- In each year of an era the first day and the last one are told to be of that year. -/
theorem commonDays_daysBefore : ∀ y : Nat, y < 400 →
    365 * (y : Int) ≤ commonDays (daysBefore y) ∧
      commonDays (daysBefore (y + 1) - 1) < 365 * (y + 1) := by
  decide +kernel

/-- A day of an era lies in the year that its common days tell. -/
theorem daysBefore_le_lt {day : Int} (hlow : 0 ≤ day) (hhigh : day < 146097) :
    ∃ y : Nat, y < 400 ∧ commonDays day / 365 = y ∧ daysBefore y ≤ day ∧
      day < daysBefore (y + 1) := by
  have hyear : 0 ≤ commonDays day / 365 ∧ commonDays day / 365 < 400 := by
    simp only [commonDays]
    omega
  obtain ⟨y, hy⟩ := Int.eq_ofNat_of_zero_le hyear.1
  refine ⟨y, by omega, hy, Int.not_lt.mp fun hlt => ?_, Int.not_le.mp fun hle => ?_⟩
  · -- Before the first day of the year there are too few common days.
    cases y with
    | zero => exact absurd (Int.lt_of_le_of_lt hlow hlt) (by decide)
    | succ y =>
      have hbefore := (commonDays_daysBefore y (by omega)).2
      have hmono : commonDays day ≤ commonDays (daysBefore (y + 1) - 1) :=
        commonDays_mono (Int.le_sub_one_of_lt hlt)
      omega
  · -- From the first day of the next year on there are too many.
    by_cases hlast : y = 399
    · subst hlast
      exact absurd (Int.lt_of_le_of_lt hle hhigh) (by decide)
    · have hnext := (commonDays_daysBefore (y + 1) (by omega)).1
      have hmono : commonDays (daysBefore (y + 1)) ≤ commonDays day := commonDays_mono hle
      rw [Int.natCast_add, Int.natCast_one] at hnext
      omega

/-- Four hundred years more are an era more. -/
theorem daysBefore_add (year era : Int) :
    daysBefore (year + era * 400) = daysBefore year + era * 146097 := by
  simp only [daysBefore]
  omega

/-- A year that begins in March is as long as the leap day at its end makes it. -/
theorem daysBefore_succ (year : Int) :
    daysBefore (year + 1) = daysBefore year + if isLeapYear (year + 1) then 366 else 365 := by
  simp only [daysBefore, isLeapYear, Bool.and_eq_true, Bool.or_eq_true, beq_iff_eq, bne_iff_ne]
  split <;> omega

/-- The months from March on hold the days of a year in order. -/
theorem month_of_dayOfYear : ∀ day : Nat, day < 366 →
    (5 * day + 2) / 153 < 12 ∧ (153 * ((5 * day + 2) / 153) + 2) / 5 ≤ day ∧
      day < (153 * ((5 * day + 2) / 153 + 1) + 2) / 5 := by
  decide +kernel

/-! ### Dates -/

namespace Date

/-- The date of a day of a month of a year that begins in March, all counted from zero. -/
def ofMarch (year : Int) (month day : Nat) : Date :=
  if month < 10 then ⟨year, month + 3, day + 1⟩ else ⟨year + 1, month - 9, day + 1⟩

/-- A day, counted from the first of March of the year zero, lies in a month of a year that begins
in March. -/
structure Lies (n : Int) (year : Int) (month day : Nat) : Prop where
  month_lt : month < 12
  sum : n = daysBefore year + ((153 * month + 2) / 5 + day : Nat)
  inMonth : (153 * month + 2) / 5 + day < (153 * (month + 1) + 2) / 5
  inYear : n < daysBefore (year + 1)

/-- The date of a number of days is read off the place where it lies. -/
theorem exists_lies (n : Int) :
    ∃ year month day, Lies (n + 719468) year month day ∧ ofDays n = ofMarch year month day := by
  have hlow := Int.emod_nonneg (n + 719468) (b := 146097) (by decide)
  have hhigh := Int.emod_lt_of_pos (n + 719468) (b := 146097) (by decide)
  have hsplit := Int.mul_ediv_add_emod (n + 719468) 146097
  rw [ofDays]
  generalize (n + 719468) / 146097 = era at *
  generalize (n + 719468) % 146097 = day at *
  obtain ⟨y, hlt, hyear, hfirst, hlast⟩ := daysBefore_le_lt hlow hhigh
  have hlength := daysBefore_succ y
  have hera := daysBefore_add y era
  have hnext := daysBefore_add (y + 1) era
  have hmoved : y + era * 400 + 1 = y + 1 + era * 400 := by omega
  obtain ⟨d, hd⟩ := Int.le.dest hfirst
  have hd366 : d < 366 := by
    split at hlength <;> omega
  obtain ⟨hmonth, hfrom, hto⟩ := month_of_dayOfYear d hd366
  have hcount : day - (365 * (y : Int) + y / 4 - y / 100) = d := by
    simp only [daysBefore] at hd
    omega
  have hm : (5 * (d : Int) + 2) / 153 = ((5 * d + 2) / 153 : Nat) := by omega
  rw [commonDays] at hyear
  simp only [hyear, hcount, hm, ofMarch]
  generalize (5 * d + 2) / 153 = m at *
  refine ⟨y + era * 400, m, d - (153 * m + 2) / 5, ⟨hmonth, ?_, ?_, ?_⟩, ?_⟩
  · omega
  · omega
  · rw [hmoved]
    omega
  · have hday : ((d : Int) - (153 * (m : Int) + 2) / 5 + 1).toNat = d - (153 * m + 2) / 5 + 1 := by
      clear hlength hera hnext hmoved hsplit
      omega
    rw [hday]
    by_cases hten : m < 10
    · have hten' : (m : Int) < 10 := by omega
      have hmonth' : ¬ (m : Int) + 3 ≤ 2 := by omega
      have hnat : ((m : Int) + 3).toNat = m + 3 := by omega
      rw [if_pos hten, if_pos hten', if_neg hmonth', hnat]
    · have hten' : ¬ (m : Int) < 10 := by omega
      have hmonth' : (m : Int) - 9 ≤ 2 := by omega
      have hnat : ((m : Int) - 9).toNat = m - 9 := by omega
      rw [if_neg hten, if_neg hten', if_pos hmonth', hnat]

namespace Lies

variable {n year : Int} {month day : Nat}

/-- Where a day lies, the date gives the day back. -/
theorem toDays_eq (h : Lies n year month day) : (ofMarch year month day).toDays = n - 719468 := by
  obtain ⟨hmonth, hsum, -, -⟩ := h
  have hera := daysBefore_add (year % 400) (year / 400)
  rw [Int.emod_add_ediv_mul] at hera
  have hparts : daysBefore (year % 400) =
      365 * (year % 400) + year % 400 / 4 - year % 400 / 100 := by
    simp only [daysBefore]
    omega
  by_cases hten : month < 10
  · have hlate : ¬ month + 3 ≤ 2 := by omega
    have hturn : (month + 3 + 9) % 12 = month := by omega
    simp only [ofMarch, if_pos hten, toDays, if_neg hlate, hturn]
    omega
  · have hearly : month - 9 ≤ 2 := by omega
    have hturn : (month - 9 + 9) % 12 = month := by omega
    have hback : year + 1 - 1 = year := by omega
    simp only [ofMarch, if_neg hten, toDays, if_pos hearly, hturn, hback]
    omega

/-- The month of the date of a day, and the days that the month has. -/
theorem month_day (h : Lies n year month day) :
    1 ≤ (ofMarch year month day).month ∧ (ofMarch year month day).month ≤ 12 ∧
      1 ≤ (ofMarch year month day).day ∧ (ofMarch year month day).day ≤
        daysInMonth (ofMarch year month day).year (ofMarch year month day).month := by
  obtain ⟨hmonth, hsum, hin, hyear⟩ := h
  by_cases hten : month < 10
  · simp only [ofMarch, if_pos hten]
    refine ⟨by omega, by omega, by omega, ?_⟩
    interval_cases month <;> simp only [daysInMonth] <;> omega
  · simp only [ofMarch, if_neg hten]
    refine ⟨by omega, by omega, by omega, ?_⟩
    rw [daysBefore_succ] at hyear
    interval_cases month
    · simp only [daysInMonth]
      omega
    · simp only [daysInMonth]
      split at hyear <;> simp_all <;> omega

end Lies

/-- The date of a day is on that day. -/
theorem toDays_ofDays (n : Int) : (ofDays n).toDays = n := by
  obtain ⟨year, month, day, hlies, hdate⟩ := exists_lies n
  rw [hdate, hlies.toDays_eq]
  omega

/-- Each day from the first of January of the earliest year to the last of December of the latest
has a date. -/
theorem isValid_ofDays {n : Int} (hmin : (Date.mk minYear 1 1).toDays ≤ n)
    (hmax : n < (Date.mk (maxYear + 1) 1 1).toDays) : (ofDays n).isValid = true := by
  obtain ⟨year, month, day, hlies, hdate⟩ := exists_lies n
  obtain ⟨hone, htwelve, hfirst, hlast⟩ := hlies.month_day
  obtain ⟨hmonth, hsum, hin, hyear⟩ := hlies
  have hmin' : (Date.mk minYear 1 1).toDays = daysBefore (minYear - 1) + 306 - 719468 := by decide
  have hmax' : (Date.mk (maxYear + 1) 1 1).toDays = daysBefore maxYear + 306 - 719468 := by decide
  rw [hmin'] at hmin
  rw [hmax'] at hmax
  rw [hdate, isValid]
  have hfrom : minYear - 1 ≤ year := by
    simp only [daysBefore, minYear] at *
    omega
  have hto : year ≤ maxYear := by
    simp only [daysBefore, maxYear] at *
    omega
  -- January and February of the first year of the calendar belong to the year before it.
  have hrange : minYear ≤ (ofMarch year month day).year ∧
      (ofMarch year month day).year ≤ maxYear := by
    by_cases hten : month < 10
    · rw [ofMarch, if_pos hten]
      refine ⟨Int.not_lt.mp fun hlt => ?_, hto⟩
      obtain rfl : year = minYear - 1 := Int.le_antisymm (Int.le_sub_one_of_lt hlt) hfrom
      omega
    · rw [ofMarch, if_neg hten]
      refine ⟨Int.le_add_of_sub_right_le hfrom, Int.not_lt.mp fun hlt => ?_⟩
      obtain rfl : year = maxYear := Int.le_antisymm hto (Int.lt_add_one_iff.mp hlt)
      omega
  simp [hrange, hone, htwelve, hfirst, hlast]

end Date

end Mishap.Time
