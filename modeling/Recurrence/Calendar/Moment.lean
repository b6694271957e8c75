import Recurrence.Calendar.Date

namespace Recurrence

/-! Moments of local time, to the microsecond. -/

structure Moment where
  date : Date
  hour : Nat
  minute : Nat
  second : Nat
  microsecond : Nat
  hour_lt : hour < 24
  minute_lt : minute < 60
  second_lt : second < 60
  microsecond_lt : microsecond < 1000000
deriving DecidableEq

namespace Moment

def of? (date : Date) (hour minute second microsecond : Nat) : Option Moment :=
  if bounds : hour < 24 ∧ minute < 60 ∧ second < 60 ∧ microsecond < 1000000 then
    some ⟨date, hour, minute, second, microsecond,
      bounds.1, bounds.2.1, bounds.2.2.1, bounds.2.2.2⟩
  else none

def minuteOfDay (moment : Moment) : Nat :=
  60 * moment.hour + moment.minute

def atMinute? (date : Date) (minuteOfDay : Nat) : Option Moment :=
  of? date (minuteOfDay / 60) (minuteOfDay % 60) 0 0

/-- Microseconds since the midnight before the calendar's first day. -/
def microseconds (moment : Moment) : Nat :=
  (((24 * moment.date.ordinal + moment.hour) * 60 + moment.minute) * 60 + moment.second) * 1000000
    + moment.microsecond

/-- The exact time from `earlier` to `moment`, in microseconds. -/
def since (moment earlier : Moment) : Int :=
  (moment.microseconds : Int) - earlier.microseconds

end Moment

end Recurrence
