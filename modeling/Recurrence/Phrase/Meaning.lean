import Recurrence.Calendar.Date
import Recurrence.Clock
import Recurrence.Crontab.Line
import Recurrence.Reading

namespace Recurrence

/-! What recognized phrases mean: the schedule of each, how it is confirmed, and what it
leaves out where five fields cannot say it. -/

inductive Phrase where
  | everyMinute
  | everyHour
  | everyDay
  | everyWeek
  | everyMonth
  | everyYear
  | twiceADay
  | minutes (n : Nat)
  | hours (n : Nat)
  | days (n : Nat) (clock : Clock)
  | daily (clock : Clock)
  | weekday (day : Weekday) (clock : Clock)
  | workdays (clock : Clock)
  | weekend (clock : Clock)
  | weekdays (named : List Weekday) (clock : Clock)
  | firstOfMonth (clock : Clock)
  | dayOfMonth (day : Nat) (clock : Clock)
  | twiceADayAt (both : List Int)
  | yearly (month day : Nat) (clock : Clock)
  | lastWeekday (day : Weekday) (clock : Clock)
  | nthWeekday (n : Nat) (day : Weekday) (clock : Clock)
  | lastDayOfMonth (clock : Clock)
  | weeks (n : Nat)
deriving DecidableEq, Repr

namespace Phrase

open Crontab

def lineAt (clock : Clock) (dayOfMonth month dayOfWeek : Term) : Line :=
  ⟨.value clock.minute, .value clock.hour, dayOfMonth, month, dayOfWeek⟩

def line : Phrase → Line
  | .everyMinute => ⟨.any, .any, .any, .any, .any⟩
  | .everyHour => ⟨.value 0, .any, .any, .any, .any⟩
  | .everyDay => lineAt .midnight .any .any .any
  | .everyWeek => lineAt .midnight .any .any (.value 0)
  | .everyMonth => lineAt .midnight (.value 1) .any .any
  | .everyYear => lineAt .midnight (.value 1) (.value 1) .any
  | .twiceADay => ⟨.value 0, .only [0, 12], .any, .any, .any⟩
  | .minutes n => ⟨.every n, .any, .any, .any, .any⟩
  | .hours n => ⟨.value 0, .every n, .any, .any, .any⟩
  | .days n clock => lineAt clock (.every n) .any .any
  | .daily clock => lineAt clock .any .any .any
  | .weekday day clock => lineAt clock .any .any (.value day.code)
  | .workdays clock => lineAt clock .any .any (.span 1 5)
  | .weekend clock => lineAt clock .any .any (.only [0, 6])
  | .weekdays named clock => lineAt clock .any .any (.only (named.map fun day => (day.code : Int)))
  | .firstOfMonth clock => lineAt clock (.value 1) .any .any
  | .dayOfMonth day clock => lineAt clock (.value day) .any .any
  | .twiceADayAt both => ⟨.value 0, .only both, .any, .any, .any⟩
  | .yearly month day clock => lineAt clock (.value day) (.value month) .any
  | .lastWeekday day clock => lineAt clock .any .any (.value day.code)
  | .nthWeekday _ day clock => lineAt clock .any .any (.value day.code)
  | .lastDayOfMonth clock => lineAt clock (.span 28 31) .any .any
  | .weeks _ => lineAt .midnight .any .any (.value 0)

def listNames (separator : String) (named : List Weekday) : List Char :=
  Text.joinWith separator (named.map (·.name.toList))

def atLabel (clock : Clock) : List Char :=
  " at ".toList ++ clock.label

def confirmation : Phrase → List Char
  | .everyMinute => "Every minute".toList
  | .everyHour => "Every hour at minute 0".toList
  | .everyDay => "Every day at midnight".toList
  | .everyWeek => "Every week on Sunday at midnight".toList
  | .everyMonth => "First day of every month at midnight".toList
  | .everyYear => "Every year on January 1st at midnight".toList
  | .twiceADay => "Twice a day at midnight and noon".toList
  | .minutes n => "Every ".toList ++ Text.decimal n ++ " minute(s)".toList
  | .hours n => "Every ".toList ++ Text.decimal n ++ " hour(s)".toList
  | .days n clock => "Every ".toList ++ Text.decimal n ++ " day(s)".toList ++ atLabel clock
  | .daily clock => "Daily".toList ++ atLabel clock
  | .weekday day clock => "Every ".toList ++ day.name.toList ++ atLabel clock
  | .workdays clock => "Every weekday".toList ++ atLabel clock
  | .weekend clock => "Every weekend".toList ++ atLabel clock
  | .weekdays named clock => "Every ".toList ++ listNames " and " named ++ atLabel clock
  | .firstOfMonth clock => "First day of every month".toList ++ atLabel clock
  | .dayOfMonth day clock =>
      "Day ".toList ++ Text.decimal day ++ " of every month".toList ++ atLabel clock
  | .twiceADayAt both =>
      "Twice a day at ".toList ++ Text.joinWith " and " (both.map fun hour => Clock.label ⟨hour, 0⟩)
  | .yearly month day clock =>
      "Every year on ".toList ++ Month.name month ++ ' ' :: ordinalLabel day ++ atLabel clock
  | .lastWeekday day _ => "Attempted: Last ".toList ++ day.name.toList ++ " of the month".toList
  | .nthWeekday n day _ =>
      "Attempted: ".toList ++ ordinalLabel n ++ ' ' :: day.name.toList ++ " of the month".toList
  | .lastDayOfMonth _ => "Attempted: Last day of the month".toList
  | .weeks n => "Attempted: Every ".toList ++ Text.decimal n ++ " weeks".toList

/-- The days of a month that a step over its days falls on. -/
def stepDays (n : Nat) : List Nat :=
  if n = 0 then [] else (List.range (30 / n + 1)).map fun k => 1 + n * k

def dayStepWarning (n : Int) (covered : List Nat) : List Char :=
  let shown := Text.joinWith ", " ((covered.take 4).map Text.decimal)
  let more := if 4 < covered.length then ", etc.".toList else []
  "Note: */".toList ++ Text.signed n ++ " in the day-of-month field runs on days ".toList ++
    shown ++ more ++ " of each month, not every ".toList ++ Text.signed n ++
    " days from today. The count restarts on the 1st of every month.".toList

def warning? : Phrase → Option (List Char)
  | .days n _ => some (dayStepWarning n (stepDays n))
  | .lastWeekday day _ =>
      some ("Standard cron cannot express \"last ".toList ++ day.name.toList ++
        " of month\". This requires the 'L' operator (e.g. ".toList ++ Text.decimal day.code ++
        "L) which is only available in extended cron formats like Quartz. ".toList ++
        "The expression shown will run every ".toList ++ day.name.toList ++ ['.'])
  | .nthWeekday n day _ =>
      some ("Standard cron cannot express \"".toList ++ ordinalLabel n ++ ' ' :: day.name.toList ++
        " of month\". This requires the '#' operator (e.g. ".toList ++ Text.decimal day.code ++
        '#' :: Text.decimal n ++ ") which is only available in extended cron formats. ".toList ++
        "The expression shown will run every ".toList ++ day.name.toList ++ ['.'])
  | .lastDayOfMonth _ =>
      some ("Standard cron cannot express \"last day of month\". ".toList ++
        "This requires the 'L' operator which is only available in extended cron formats. ".toList ++
        "The expression shown runs on days 28-31 as an approximation.".toList)
  | .weeks n =>
      some ("Standard cron cannot directly express \"every ".toList ++ Text.decimal n ++
        " weeks\". Cron fields reset every calendar ".toList ++
        "unit, so there is no multi-week step. ".toList ++
        "Run weekly and keep an execution counter in your job (or use a scheduler with week intervals) to skip the runs in between.".toList)
  | _ => none

/-- A step over days says most of what was meant; the other warnings concern the whole. -/
def confidence : Phrase → Confidence
  | .days _ _ => .medium
  | .lastWeekday _ _ | .nthWeekday _ _ _ | .lastDayOfMonth _ | .weeks _ => .low
  | _ => .high

def reading (phrase : Phrase) : Reading :=
  match phrase.warning? with
  | some warning =>
      .approximation phrase.line.text warning phrase.confirmation phrase.confidence
  | none => .success phrase.line.text phrase.confirmation phrase.confidence

/-- A step of no days at all. -/
inductive DayStepFault where
  | zeroStep
deriving DecidableEq, Repr

def DayStepFault.message : DayStepFault → String
  | .zeroStep => "range() arg 3 must not be zero"

/-- The reading of a step over days for any number, of which only positive ones name days. -/
def dayStepReading (n : Int) (clock : Clock) : Except DayStepFault Reading :=
  if n = 0 then .error .zeroStep
  else .ok (.approximation (lineAt clock (.every n) .any .any).text
    (dayStepWarning n (stepDays n.toNat))
    ("Every ".toList ++ Text.signed n ++ " day(s)".toList ++ atLabel clock) .medium)

end Phrase

end Recurrence
