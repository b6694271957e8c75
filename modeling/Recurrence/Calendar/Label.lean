import Recurrence.Calendar.Moment
import Recurrence.Calendar.Names
import Recurrence.Text.Numeral

namespace Recurrence.Moment

/-! How a moment is shown: in full, or by its distance from now while that is less
than a week. Distances are rounded down. -/

def meridiem (moment : Moment) : String :=
  if moment.hour < 12 then "AM" else "PM"

def faceHour (hour : Nat) : Nat :=
  if hour % 12 = 0 then 12 else hour % 12

def label (moment : Moment) : List Char :=
  moment.date.weekday.shortName ++ ", ".toList ++ Month.shortName moment.date.month ++
    ' ' :: Text.decimal moment.date.day ++ ", ".toList ++ Text.decimal moment.date.year ++
    ", ".toList ++ Text.decimal (faceHour moment.hour) ++ ':' :: Text.padded 2 moment.minute ++
    ' ' :: moment.meridiem.toList

def minuteLength : Int := 60 * 1000000

def hourLength : Int := 60 * minuteLength

def dayLength : Int := 24 * hourLength

def inUnits (count : Int) (unit : String) : List Char :=
  "in ".toList ++ Text.signed count ++ ' ' :: unit.toList ++ (if count = 1 then [] else ['s'])

def relativeLabel (moment now : Moment) : List Char :=
  let distance := moment.since now
  if distance / minuteLength < 1 then "in less than a minute".toList
  else if distance / minuteLength < 60 then inUnits (distance / minuteLength) "minute"
  else if distance / hourLength < 24 then inUnits (distance / hourLength) "hour"
  else if distance / dayLength < 7 then inUnits (distance / dayLength) "day"
  else moment.label

end Recurrence.Moment
