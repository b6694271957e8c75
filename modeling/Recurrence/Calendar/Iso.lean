import Recurrence.Calendar.Moment
import Recurrence.Text.Numeral
import Recurrence.Text.Segment

namespace Recurrence.Moment

/-! Moments written as date, letter T and time of day, with a fraction of a second
only where there is one. -/

def toIso (moment : Moment) : List Char :=
  let fraction :=
    if moment.microsecond = 0 then [] else '.' :: Text.padded 6 moment.microsecond
  Text.padded 4 moment.date.year ++ '-' :: Text.padded 2 moment.date.month ++
    '-' :: Text.padded 2 moment.date.day ++ 'T' :: Text.padded 2 moment.hour ++
    ':' :: Text.padded 2 moment.minute ++ ':' :: Text.padded 2 moment.second ++ fraction

def fixedNumber? (width : Nat) (text : List Char) : Option Nat :=
  if text.length = width ∧ text.all Text.isPlainDigit then some (Text.digitsValue text) else none

/-- Up to six digits behind the point of a number of seconds. -/
def fraction? (text : List Char) : Option Nat :=
  if 1 ≤ text.length ∧ text.length ≤ 6 ∧ text.all Text.isPlainDigit then
    some (Text.digitsValue (text ++ List.replicate (6 - text.length) '0'))
  else none

def ofIso? (text : List Char) : Option Moment := do
  let (day, time) ← Text.splitFirst? 'T' text
  let [year, month, dayOfMonth] := Text.splitAt '-' day | none
  let [hour, minute, seconds] := Text.splitAt ':' time | none
  let (second, fraction) ← match Text.splitFirst? '.' seconds with
    | none => some (seconds, 0)
    | some (second, digits) => (fraction? digits).map (second, ·)
  let date ← Date.of? (← fixedNumber? 4 year) (← fixedNumber? 2 month) (← fixedNumber? 2 dayOfMonth)
  of? date (← fixedNumber? 2 hour) (← fixedNumber? 2 minute) (← fixedNumber? 2 second) fraction

end Recurrence.Moment
