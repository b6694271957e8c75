import Recurrence.Calendar.Date
import Recurrence.Crontab.Field
import Recurrence.Text.LowerCase

namespace Recurrence.Crontab

/-! Timetables: schedules spread out into the values of every field, and the days and
minutes that they name.

The grammar is wider than the field grammar. Months and weekdays have names, a range may
run across the end of its field, a range from a value to itself means the whole field, a
step may follow a single value, and days may be counted from the end of the month. -/

inductive Entry where
  | every
  | value (n : Nat)
  | lastDay
deriving DecidableEq, Repr

/-- Which of the days of a month that fall on the same weekday. -/
inductive Turn where
  | nth (k : Nat)
  | last
deriving DecidableEq, Repr

structure Unreadable where
  field : Field
  text : List Char
deriving DecidableEq, Repr

def Unreadable.message (fault : Unreadable) : List Char :=
  '[' :: fault.text ++ "] is not acceptable".toList

/-- What a field names: its entries, and the weekdays that come in one turn only. -/
structure Spread where
  entries : List Entry
  turns : List (Nat × Turn)
deriving Repr

def monthWords : List String :=
  ["jan", "feb", "mar", "apr", "may", "jun", "jul", "aug", "sep", "oct", "nov", "dec"]

def weekdayWords : List String :=
  ["sun", "mon", "tue", "wed", "thu", "fri", "sat"]

def plainNumber? (text : List Char) : Option Nat :=
  if text ≠ [] ∧ text.all Text.isPlainDigit then (Text.readDigits text).toOption else none

namespace Field

def size (field : Field) : Nat :=
  field.greatest + 1 - field.least

def ofWord? (field : Field) (word : List Char) : Option Nat :=
  match field with
  | .month => (monthWords.findIdx? (·.toList == word)).map (· + 1)
  | .dayOfWeek => weekdayWords.findIdx? (·.toList == word)
  | _ => none

/-- A number or a name. Sunday is both the first and the last day of the week. -/
def readTerm? (field : Field) (text : List Char) : Option Nat :=
  match plainNumber? text with
  | some n => some (if field = .dayOfWeek ∧ n = 7 then 0 else n)
  | none => field.ofWord? text

/-- `first`, `first + step`, … as long as `last` is not passed. -/
def climb (first last step : Nat) : List Nat :=
  if first ≤ last then (List.range ((last - first) / step + 1)).map fun k => first + step * k
  else []

/-- How far from the start of its field a range goes on after running across the end, when
`left` values remained behind its last one: a step that exactly spans them lands on the
start itself, a longer one as many places behind the start as it is longer than `left`. -/
def carry (field : Field) (first step : Nat) : Nat :=
  let left := (field.greatest - first) % step
  if left + 1 < step then step - left else 0

def range? (field : Field) (first last step : Nat) : Option (List Nat) :=
  if step = 0 ∨ field.greatest < first ∨ field.greatest < last then none
  else
    let values :=
      if first < last then climb first last step
      else if first = last then climb field.least field.greatest step
      else climb first field.greatest step ++ climb (field.least + field.carry first step) last step
    if values.all (field.least ≤ ·) then some values else none

def readRange? (field : Field) (base : List Char) (step : Nat) : Option (List Nat) :=
  match Text.splitAt '-' base with
  | [first, last] => do field.range? (← field.readTerm? first) (← field.readTerm? last) step
  | _ => none

/-- An item without a turn: everything, a value, a range, or one of them with a step. -/
def readItem? (field : Field) (item : List Char) : Option (List Entry) :=
  if item = ['*'] then some [.every]
  else if item = ['l'] ∧ field = .dayOfMonth then some [.lastDay]
  else match Text.splitFirst? '/' item with
    | some (base, stepText) => do
        let step ← plainNumber? stepText
        let values ←
          if base = ['*'] then field.range? field.least field.greatest step
          else if base.contains '-' then field.readRange? base step
          else field.range? (← field.readTerm? base) field.greatest step
        return values.map .value
    | none =>
        if item.contains '-' then (field.readRange? item 1).map (·.map .value)
        else do
          let value ← field.readTerm? item
          if field.least ≤ value ∧ value ≤ field.greatest then some [.value value] else none

/-- An item that names weekdays in one turn: the last one of the month, or the n-th. -/
def readTurn? (item : List Char) : Option (List Nat × Turn) :=
  match item with
  | 'l' :: dayText => do
      let _ ← plainNumber? dayText
      let day ← Field.dayOfWeek.readTerm? dayText
      if day ≤ Field.dayOfWeek.greatest then some ([day], .last) else none
  | _ => do
      let (dayText, turnText) ← Text.splitFirst? '#' item
      let turn ← plainNumber? turnText
      let days ←
        if dayText.contains '-' ∧ !dayText.any Text.isPlainDigit then
          Field.dayOfWeek.readRange? dayText 1
        else (Field.dayOfWeek.readTerm? dayText).map ([·])
      if 1 ≤ turn ∧ turn ≤ 5 ∧ days.all (· ≤ Field.dayOfWeek.greatest) then
        some (days, .nth turn)
      else none

def readPart? (field : Field) (item : List Char) : Option Spread :=
  match if field = .dayOfWeek then readTurn? item else none with
  | some (days, turn) => some ⟨days.map .value, days.map (·, turn)⟩
  | none => (field.readItem? item).map (⟨·, []⟩)

/-- A field that leaves its value to chance stands for a value, or for a step from one.
Of the values that chance may choose, the least is taken. -/
def chosen? (field : Field) (text : List Char) : Option (Option (List Nat)) :=
  match text with
  | 'r' :: rest =>
      let (between, step) := match Text.splitFirst? '/' rest with
        | some (between, step) => (between, some step)
        | none => (rest, none)
      let limits : Option (Nat × Nat) :=
        match between with
        | [] => some (field.least, field.greatest)
        | '(' :: inside =>
            match Text.splitFirst? ')' inside with
            | some (limits, []) =>
                match (Text.splitAt '-' limits).map plainNumber? with
                | [some first, some last] => some (first, last)
                | _ => none
            | _ => none
        | _ => none
      match limits, step.map plainNumber? with
      | none, _ => none
      | some _, some none => none
      | some (first, last), none =>
          some (if field.least ≤ first ∧ first ≤ last ∧ last ≤ field.greatest then some [first]
            else none)
      | some (first, last), some (some step) => some (field.range? first last step)
  | _ => none

/-- What a whole field names. `?` means everything where days are named. -/
def spread (field : Field) (text : List Char) : Except Unreadable Spread :=
  if text = ['?'] ∧ (field = .dayOfMonth ∨ field = .dayOfWeek) then .ok ⟨[.every], []⟩
  else match field.chosen? text with
    | some (some values) => .ok ⟨values.map .value, []⟩
    | some none => .error ⟨field, text⟩
    | none =>
        match (Text.splitAt ',' text).mapM field.readPart? with
        | some parts => .ok ⟨(parts.flatMap (·.entries)).eraseDups, parts.flatMap (·.turns)⟩
        | none => .error ⟨field, text⟩

def values (field : Field) (entries : List Entry) : List Nat :=
  ((List.range field.size).map (· + field.least)).filter fun n =>
    entries.contains .every || entries.contains (.value n)

end Field

structure Timetable where
  minutes : List Nat
  hours : List Nat
  months : List Nat
  /-- Whether the field of days of the month lets every day pass. -/
  openDays : Bool
  days : List Nat
  lastDay : Bool
  /-- Whether the field of weekdays lets every day pass. -/
  openWeekdays : Bool
  weekdays : List Nat
  turns : List (Nat × Turn)
deriving Repr

namespace Timetable

/-- Whether a day field is open: it names everything, or it names as much as it can while
a star stands in the other day field. -/
def isOpen (field : Field) (spread : Spread) (otherText : List Char) : Bool :=
  spread.entries.contains .every ||
    spread.entries.length == field.size && otherText.contains '*'

/-- Days that come in one turn only and days that come every week do not go together,
unless all days are named. -/
def mixesTurns (weekdays : Spread) : Bool :=
  !weekdays.turns.isEmpty && weekdays.entries.length != Field.dayOfWeek.size &&
    weekdays.entries.any fun entry => match entry with
      | .value day => !weekdays.turns.any (·.1 == day)
      | _ => false

/-- The timetable of five fields, written in any case. -/
def ofFields (minuteText hourText dayText monthText weekdayText : List Char) :
    Except Unreadable Timetable := do
  let dayText := Text.lower dayText
  let weekdayText := Text.lower weekdayText
  let minutes ← Field.minute.spread (Text.lower minuteText)
  let hours ← Field.hour.spread (Text.lower hourText)
  let days ← Field.dayOfMonth.spread dayText
  let months ← Field.month.spread (Text.lower monthText)
  let weekdays ← Field.dayOfWeek.spread weekdayText
  if mixesTurns weekdays then throw ⟨.dayOfWeek, weekdayText⟩
  return {
    minutes := Field.minute.values minutes.entries
    hours := Field.hour.values hours.entries
    months := Field.month.values months.entries
    openDays := isOpen .dayOfMonth days weekdayText
    days := Field.dayOfMonth.values days.entries
    lastDay := days.entries.contains .lastDay
    openWeekdays := isOpen .dayOfWeek weekdays dayText
    weekdays := Field.dayOfWeek.values weekdays.entries
    turns := weekdays.turns }

def ofText? (expression : List Char) : Option (Except Unreadable Timetable) :=
  match Text.words expression with
  | [minute, hour, day, month, weekday] => some (ofFields minute hour day month weekday)
  | _ => none

def namesDay (table : Timetable) (date : Date) : Bool :=
  table.days.contains date.day ||
    table.lastDay && date.day == daysInMonth date.year date.month

def comesInTurn (table : Timetable) (date : Date) : Bool :=
  table.turns.any fun (day, turn) => day == date.weekday.code && match turn with
    | .nth k => (date.day - 1) / 7 + 1 == k
    | .last => daysInMonth date.year date.month < date.day + 7

def namesWeekday (table : Timetable) (date : Date) : Bool :=
  if table.turns.isEmpty then table.weekdays.contains date.weekday.code
  else table.comesInTurn date

/-- Whether the day fields let a date pass. With both fields closed either may name the
date; with one open the other decides. A turn is always kept. -/
def admitsDay (table : Timetable) (date : Date) : Bool :=
  let byDay := table.openDays || table.namesDay date
  let byWeekday := table.turns.isEmpty && table.openWeekdays || table.namesWeekday date
  if table.openDays || table.openWeekdays then byDay && byWeekday
  else if table.turns.isEmpty then byDay || byWeekday
  else byWeekday

def runsOn (table : Timetable) (date : Date) : Bool :=
  table.months.contains date.month && table.admitsDay date

def times (table : Timetable) : List Nat :=
  table.hours.flatMap fun hour => table.minutes.map fun minute => 60 * hour + minute

end Timetable

end Recurrence.Crontab
