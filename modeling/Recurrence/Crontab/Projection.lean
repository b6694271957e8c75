import Recurrence.Calendar.Moment
import Recurrence.Crontab.Format
import Recurrence.Crontab.Timetable

namespace Recurrence.Crontab

/-! The runs that follow a moment. Runs fall on whole minutes. The search for the next one
looks ahead a fixed number of years and never past the end of the calendar. -/

/-- How many years after the one it starts in a search still looks at. -/
def searchYears : Nat := 50

/-- The last day that a search starting behind a moment looks at. -/
def searchEnd (start : Moment) : Date :=
  let first :=
    if start.minuteOfDay = 1439 then (start.date.tomorrow?.getD start.date).year
    else start.date.year
  .lastOfYear (first + searchYears)

namespace Timetable

/-- The first date with runs among `count` days from a date on. -/
def firstDay? (table : Timetable) : Nat → Date → Option Date
  | 0, _ => none
  | count + 1, date =>
      if table.runsOn date then some date
      else match date.tomorrow? with
        | some next => firstDay? table count next
        | none => none

def laterToday? (table : Timetable) (start : Moment) : Option Moment :=
  if table.runsOn start.date then
    (table.times.find? (start.minuteOfDay < ·)).bind (Moment.atMinute? start.date)
  else none

def laterDay? (table : Timetable) (start : Moment) : Option Moment := do
  let tomorrow ← start.date.tomorrow?
  let day ← table.firstDay? ((searchEnd start).ordinal + 1 - tomorrow.ordinal) tomorrow
  let time ← table.times.head?
  Moment.atMinute? day time

/-- The first run strictly behind the minute of `start`. -/
def next? (table : Timetable) (start : Moment) : Option Moment :=
  table.laterToday? start <|> table.laterDay? start

/-- At most `count` runs, each the next one behind the run before it. -/
def runs (table : Timetable) : Nat → Moment → List Moment
  | 0, _ => []
  | count + 1, start =>
      match table.next? start with
      | some run => run :: runs table count run
      | none => []

end Timetable

/-- The field for the seconds, if there is one, and the five others with single spaces. -/
def splitSeconds (expression : List Char) : Option (List Char) × List Char :=
  match Text.words expression with
  | [seconds, minute, hour, day, month, weekday] =>
      (some seconds, Text.unwords [minute, hour, day, month, weekday])
  | fields => (none, Text.unwords fields)

/-- The runs of an expression in a given layout. One that does not have this layout, or
cannot be read, has none. -/
def nextRuns (expression : List Char) (count : Int) (format : Format) (start : Moment) :
    List Moment :=
  if (Text.words expression).length = format.fieldCount then
    match Timetable.ofText? (splitSeconds expression).2 with
    | some (.ok table) => table.runs count.toNat start
    | _ => []
  else []

end Recurrence.Crontab
