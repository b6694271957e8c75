import Recurrence.Calendar.Names

namespace Recurrence

/-! Dates of the Gregorian calendar, extended to the years 1 to 9999. A date carries
the proof that its day exists. -/

def isLeapYear (year : Nat) : Bool :=
  year % 4 == 0 && (year % 100 != 0 || year % 400 == 0)

def daysInMonth (year month : Nat) : Nat :=
  if month = 2 then (if isLeapYear year then 29 else 28)
  else if month = 4 ∨ month = 6 ∨ month = 9 ∨ month = 11 then 30
  else 31

theorem one_le_daysInMonth (year month : Nat) : 1 ≤ daysInMonth year month := by
  unfold daysInMonth
  repeat' split
  all_goals omega

def lastYear : Nat := 9999

structure Date where
  year : Nat
  month : Nat
  day : Nat
  year_pos : 1 ≤ year
  year_le : year ≤ lastYear
  month_pos : 1 ≤ month
  month_le : month ≤ 12
  day_pos : 1 ≤ day
  day_le : day ≤ daysInMonth year month
deriving DecidableEq

namespace Date

def of? (year month day : Nat) : Option Date :=
  if bounds : (1 ≤ year ∧ year ≤ lastYear) ∧ (1 ≤ month ∧ month ≤ 12) ∧
      1 ≤ day ∧ day ≤ daysInMonth year month then
    some ⟨year, month, day, bounds.1.1, bounds.1.2, bounds.2.1.1, bounds.2.1.2,
      bounds.2.2.1, bounds.2.2.2⟩
  else none

def daysBeforeYear (year : Nat) : Nat :=
  let past := year - 1
  365 * past + past / 4 - past / 100 + past / 400

def daysBeforeMonth (year month : Nat) : Nat :=
  (List.range (month - 1)).foldl (fun days earlier => days + daysInMonth year (earlier + 1)) 0

/-- The number of days from the last day before year 1. -/
def ordinal (date : Date) : Nat :=
  daysBeforeYear date.year + daysBeforeMonth date.year date.month + date.day

/-- Year 1 began on a Monday, so day 0 before it was a Sunday. -/
def weekday (date : Date) : Weekday :=
  .afterSunday date.ordinal

def tomorrow? (date : Date) : Option Date :=
  of? date.year date.month (date.day + 1)
    <|> of? date.year (date.month + 1) 1
    <|> of? (date.year + 1) 1 1

/-- The last day of a year, or of the calendar if the year lies beyond it. -/
def lastOfYear (year : Nat) : Date where
  year := min (max year 1) lastYear
  month := 12
  day := 31
  year_pos := by simp only [lastYear]; omega
  year_le := by simp only [lastYear]; omega
  month_pos := by omega
  month_le := by omega
  day_pos := by omega
  day_le := by simp [daysInMonth]

end Date

end Recurrence
