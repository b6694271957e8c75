import Recurrence.Calendar.Names
import Recurrence.Text.Blank
import Recurrence.Text.Numeral
import Recurrence.Text.Segment
import Recurrence.Text.WordChar

namespace Recurrence.Crontab

/-! A schedule described in one English sentence. The description follows the text of the
fields, whether or not they can ever be met, and fails only where a number or a name is
needed and not found. -/

namespace Sentence

structure Parts where
  seconds : List Char
  minutes : List Char
  hours : List Char
  days : List Char
  months : List Char
  weekdays : List Char
  years : List Char
deriving Repr

def isYear (field : List Char) : Bool :=
  4 ≤ field.length && (field.drop (field.length - 4)).all Text.isDigit

/-- Six fields begin with the seconds unless they end with a year or leave a day field out. -/
def Parts.ofWords? : List (List Char) → Option Parts
  | [minutes, hours, days, months, weekdays] =>
      some ⟨[], minutes, hours, days, months, weekdays, []⟩
  | [first, second, third, fourth, fifth, sixth] =>
      if isYear sixth || third == ['?'] || fifth == ['?'] then
        some ⟨[], first, second, third, fourth, fifth, sixth⟩
      else some ⟨first, second, third, fourth, fifth, sixth, []⟩
  | [seconds, minutes, hours, days, months, weekdays, years] =>
      some ⟨seconds, minutes, hours, days, months, weekdays, years⟩
  | _ => none

/-! Equivalent spellings are brought to one form before anything is described. -/

/-- A step that starts at the field's first value is a step over the whole field. -/
def starStep (first : Char) (field : List Char) : List Char :=
  if [first, '/'].isPrefixOf field then Text.replaceAll (String.ofList [first, '/']) "*/" field
  else field

/-- Writes a Sunday given as day 7 as day 0. Digits of ordinals, steps and longer numbers
are left alone. -/
def sundayFirst : List Char → List Char
  | [] => []
  | [c] => [c]
  | c :: '7' :: rest =>
      if c == '#' || c == '/' || Text.isBlank c || Text.isDigit c then
        c :: sundayFirst ('7' :: rest)
      else c :: '0' :: sundayFirst rest
  | c :: next :: rest => c :: sundayFirst (next :: rest)

def weekdayWords : List (String × String) :=
  [("SUN", "0"), ("MON", "1"), ("TUE", "2"), ("WED", "3"), ("THU", "4"), ("FRI", "5"), ("SAT", "6")]

def monthWords : List (String × String) :=
  [("JAN", "1"), ("FEB", "2"), ("MAR", "3"), ("APR", "4"), ("MAY", "5"), ("JUN", "6"),
    ("JUL", "7"), ("AUG", "8"), ("SEP", "9"), ("OCT", "10"), ("NOV", "11"), ("DEC", "12")]

def capital (c : Char) : Char :=
  if c == 'ſ' then 'S' else if c == 'ı' then 'I' else c.toUpper

def numberNames (table : List (String × String)) (field : List Char) : List Char :=
  table.foldl (fun text entry => Text.replaceAll entry.1 entry.2 text) (field.map capital)

def hasAny (marks : List Char) (field : List Char) : Bool :=
  field.any marks.contains

/-- Behind a repeated time part a single hour stands for all of its minutes. -/
def widenHour (seconds minutes hours : List Char) : List Char :=
  if !hasAny ['*', '-', ',', '/'] hours && (hasAny ['*', '/'] minutes || hasAny ['*', '/'] seconds)
  then hours ++ '-' :: hours
  else hours

def plainStar (field : List Char) : List Char :=
  if field = "*/1".toList then ['*'] else field

/-- A step from a single value runs to the end of the field. -/
def closeStep (last : String) (field : List Char) : List Char :=
  if field.contains '/' && !hasAny ['*', '-', ','] field then
    match Text.splitAt '/' field with
    | start :: step :: _ => start ++ '-' :: last.toList ++ '/' :: step
    | _ => field
  else field

def firstDigit7 : List Char → List Char
  | '7' :: rest => '0' :: rest
  | field => field

def Parts.normalized (parts : Parts) : Parts :=
  let seconds := starStep '0' parts.seconds
  let seconds := if seconds = ['0'] then [] else seconds
  let minutes := starStep '0' parts.minutes
  let hours := starStep '0' parts.hours
  let days := starStep '1' (Text.replaceAll "?" "*" parts.days)
  let months := numberNames monthWords (starStep '1' parts.months)
  let weekdays := starStep '1' (Text.replaceAll "?" "*" parts.weekdays)
  let weekdays := numberNames weekdayWords (sundayFirst (firstDigit7 weekdays))
  let years := starStep '1' parts.years
  { seconds := plainStar seconds
    minutes := plainStar minutes
    hours := plainStar (widenHour seconds minutes hours)
    days := plainStar days
    months := closeStep "12" (plainStar months)
    weekdays := closeStep "6" (plainStar weekdays)
    years := closeStep "2099" (plainStar years) }

/-! The wording of one field. -/

/-- How a value is named. A bare number cannot be searched for minutes. -/
inductive Item where
  | text (shown : List Char)
  | number (n : Nat)

def Item.shown : Item → List Char
  | .text shown => shown
  | .number n => Text.decimal n

/-- The phrases for a field. `{0}` and `{1}` stand for what is described. -/
structure Voice where
  every : String
  item : List Char → Option Item
  interval : List Char → Option (List Char)
  between : String
  single : List Char → String
  listed : String

def fill (phrase : String) (first second : List Char) : List Char :=
  let rec go : List Char → List Char
    | '\x7b' :: '0' :: '\x7d' :: rest => first ++ go rest
    | '\x7b' :: '1' :: '\x7d' :: rest => second ++ go rest
    | c :: rest => c :: go rest
    | [] => []
  go phrase.toList

/-- The span from one value to another. The end of a span of hours is its last minute. -/
def describeSpan (phrase : String) (voice : Voice) (span : List Char) : Option (List Char) :=
  match Text.splitAt '-' span with
  | first :: last :: _ => do
      let first ← voice.item first
      match ← voice.item last with
      | .text last => some (fill phrase first.shown (Text.replaceAll ":00" ":59" last))
      | .number _ => none
  | _ => none

def describeListItem (voice : Voice) (item : List Char) : Option (List Char) :=
  if item.contains '-' then
    (describeSpan voice.listed voice item).map (Text.replaceAll ", " "")
  else do
    match ← voice.item item with
    | .text shown => some shown
    | .number _ => none

/-- Items with commas between them and the word "and" before the last one. -/
def enumerate : List (List Char) → List Char
  | [] => []
  | [only] => only
  | [first, last] => first ++ " and ".toList ++ last
  | items =>
      Text.joinWith ", " items.dropLast ++ ", and ".toList ++ (items.getLast?).getD []

def describeSingle (voice : Voice) (field : List Char) : Option (List Char) := do
  let item ← voice.item field
  return fill (voice.single field) item.shown []

def describeStep (voice : Voice) (start step : List Char) : Option (List Char) := do
  let _ ← voice.item step
  let interval ← voice.interval step
  if start.contains '-' then
    let span ← describeSpan voice.between voice start
    return interval ++ (if (", ".toList).isPrefixOf span then [] else ", ".toList) ++ span
  else if hasAny ['*', ','] start then return interval
  else
    let first ← describeSingle voice start
    return interval ++ ", starting ".toList ++ Text.replaceFirst ", ".toList [] first

def describe (voice : Voice) (field : List Char) : Option (List Char) :=
  if field = [] then some []
  else if field = ['*'] then some voice.every.toList
  else if !hasAny ['/', '-', ','] field then describeSingle voice field
  else if field.contains '/' then
    match Text.splitAt '/' field with
    | start :: step :: _ => describeStep voice start step
    | _ => none
  else if field.contains ',' then do
    let items ← (Text.splitAt ',' field).mapM (describeListItem voice)
    return fill (voice.single field) (enumerate items) []
  else describeSpan voice.between voice field

/-- A step of any text, filled into its phrase. The step is then searched for places to be
filled in turn, and has to be well formed as a phrase: braces come in pairs. -/
def refill (step : List Char) : Option (List Char) :=
  let rec go (numbered unnumbered : Bool) : List Char → Option (List Char)
    | '\x7b' :: '\x7b' :: rest => (go numbered unnumbered rest).map ('\x7b' :: ·)
    | '\x7d' :: '\x7d' :: rest => (go numbered unnumbered rest).map ('\x7d' :: ·)
    | '\x7b' :: '0' :: '\x7d' :: rest =>
        if unnumbered then none else (go true unnumbered rest).map (step ++ ·)
    | '\x7b' :: '\x7d' :: rest =>
        if numbered || unnumbered then none else (go numbered true rest).map (step ++ ·)
    | '\x7b' :: _ => none
    | '\x7d' :: _ => none
    | c :: rest => (go numbered unnumbered rest).map (c :: ·)
    | [] => some []
  go false false step

def everyStep (unit : String) (step : List Char) : Option (List Char) :=
  (refill step).map fun step => "every ".toList ++ step ++ ' ' :: unit.toList

/-- A time of day on a clock with twelve hours. Hours behind the twenty-fourth go on. -/
def timeOfDay? (hour minute second : List Char) : Option (List Char) := do
  let hour ← Text.readInteger? hour
  let minute ← Text.readInteger? minute
  let second ←
    if second = [] then pure []
    else (Text.readInteger? second).map fun n => ':' :: Text.padded 2 n
  let face := if 12 < hour then hour - 12 else hour
  let face := if face = 0 then 12 else face
  return Text.padded 2 face ++ ':' :: Text.padded 2 minute ++ second ++
    (if 12 ≤ hour then " PM" else " AM").toList

def hourItem (hour : List Char) : Option Item :=
  (timeOfDay? hour ['0'] []).map .text

/-- A weekday by its number, with the ordinal or the mark of the last one left out.
Numbers below zero count back from the end of the week. -/
def weekdayItem (field : List Char) : Option Item := do
  let number ←
    if field.contains '#' then
      match Text.splitAt '#' field with
      | [day, _] => some day
      | _ => none
    else some (field.filter (· != 'L'))
  let n ← Text.readInteger? number
  if -7 ≤ n ∧ n < 7 then some (.text (Weekday.afterSunday (n + 7).toNat).name.toList) else none

def monthItem (field : List Char) : Option Item := do
  let n ← Text.readInteger? field
  if 0 ≤ n then (Month.name? n.toNat).map .text else none

def yearItem (field : List Char) : Option Item :=
  if field ≠ [] ∧ field.all Text.isDigit then do
    let year ← (Text.readDigits field).toOption
    if year < 1900 then some (.number year)
    else if year ≤ 9999 then some (.text (Text.decimal year))
    else none
  else some (.text field)

def secondsVoice : Voice where
  every := "every second"
  item field := some (.text field)
  interval := everyStep "seconds"
  between := "seconds \x7b0\x7d through \x7b1\x7d past the minute"
  single field := if field = ['0'] then "" else "at \x7b0\x7d seconds past the minute"
  listed := ", \x7b0\x7d through \x7b1\x7d"

def minutesVoice (seconds : List Char) : Voice where
  every := "every minute"
  item field := some (.text field)
  interval := everyStep "minutes"
  between := "minutes \x7b0\x7d through \x7b1\x7d past the hour"
  single field :=
    if field = ['0'] ∧ seconds = [] then "" else "at \x7b0\x7d minutes past the hour"
  listed := ", \x7b0\x7d through \x7b1\x7d"

def hoursVoice : Voice where
  every := "every hour"
  item := hourItem
  interval := everyStep "hours"
  between := "between \x7b0\x7d and \x7b1\x7d"
  single _ := "at \x7b0\x7d"
  listed := ", \x7b0\x7d through \x7b1\x7d"

def daysVoice : Voice where
  every := ", every day"
  item field := some (.text field)
  interval step :=
    some (if step = ['1'] then ", every day".toList
      else ", every ".toList ++ step ++ " days".toList)
  between := ", between day \x7b0\x7d and \x7b1\x7d of the month"
  single _ := ", on day \x7b0\x7d of the month"
  listed := ", \x7b0\x7d through \x7b1\x7d"

def turnName (turn : List Char) : String :=
  match Text.readInteger? turn with
  | some 1 => "first"
  | some 2 => "second"
  | some 3 => "third"
  | some 4 => "forth"
  | some 5 => "fifth"
  | _ => ""

def weekdaysVoice : Voice where
  every := ", every day"
  item := weekdayItem
  interval step := (everyStep "days of the week" step).map (", ".toList ++ ·)
  between := ", \x7b0\x7d through \x7b1\x7d"
  single field :=
    match Text.splitFirst? '#' field with
    | some (_, turn) => ", on the " ++ turnName turn ++ " \x7b0\x7d of the month"
    | none =>
        if field.contains 'L' then ", on the last \x7b0\x7d of the month"
        else ", only on \x7b0\x7d"
  listed := ", \x7b0\x7d through \x7b1\x7d"

def monthsVoice : Voice where
  every := ""
  item := monthItem
  interval step := (everyStep "months" step).map (", ".toList ++ ·)
  between := ", \x7b0\x7d through \x7b1\x7d"
  single _ := ", only in \x7b0\x7d"
  listed := ", \x7b0\x7d through \x7b1\x7d"

def yearsVoice : Voice where
  every := ""
  item := yearItem
  interval step := (everyStep "years" step).map (", ".toList ++ ·)
  between := ", \x7b0\x7d through \x7b1\x7d"
  single _ := ", only in \x7b0\x7d"
  listed := ", \x7b0\x7d through \x7b1\x7d"

/-! The sentence. -/

/-- Times of a list of hours with one minute, without a comma before the last one. -/
def enumerateTimes : List (List Char) → List Char
  | [] => []
  | [only] => ' ' :: only
  | [first, last] => ' ' :: first ++ " and ".toList ++ last
  | first :: others => ' ' :: first ++ ',' :: enumerateTimes others

def joinSaid (parts : List (List Char)) : List Char :=
  Text.joinWith ", " (parts.filter (· ≠ []))

def describeTime (parts : Parts) : Option (List Char) :=
  let simple := fun field : List Char => !hasAny ['/', '-', ',', '*'] field
  if simple parts.minutes && simple parts.hours && simple parts.seconds then
    (timeOfDay? parts.hours parts.minutes parts.seconds).map ("At ".toList ++ ·)
  else if parts.seconds = [] ∧ parts.minutes.contains '-' ∧ !parts.minutes.contains ',' ∧
      simple parts.hours then
    match Text.splitAt '-' parts.minutes with
    | first :: last :: _ => do
        let first ← timeOfDay? parts.hours first []
        let last ← timeOfDay? parts.hours last []
        return fill "Every minute between \x7b0\x7d and \x7b1\x7d" first last
    | _ => none
  else if parts.seconds = [] ∧ parts.hours.contains ',' ∧ !parts.hours.contains '-' ∧
      simple parts.minutes then do
    let times ← (Text.splitAt ',' parts.hours).mapM (timeOfDay? · parts.minutes [])
    return "At".toList ++ enumerateTimes times
  else do
    let seconds ← describe secondsVoice parts.seconds
    let minutes ← describe (minutesVoice parts.seconds) parts.minutes
    let hours ← describe hoursVoice parts.hours
    return joinSaid [seconds, minutes, hours]

def leadingNumber? (text : List Char) : Option (List Char) :=
  match (text.takeWhile Text.isDigit).take 2 with
  | [] => none
  | digits => some digits

/-- The day that a mark for the nearest working day belongs to. -/
def nearestDay? (field : List Char) : Option (List Char) :=
  match field with
  | 'W' :: rest => leadingNumber? rest
  | [] => none
  | first :: rest =>
      if Text.isDigit first then
        match rest with
        | 'W' :: _ => some [first]
        | second :: 'W' :: _ => if Text.isDigit second then some [first, second] else none
        | _ => none
      else none

def describeDays (field : List Char) : Option (List Char) :=
  if field = ['L'] then some ", on the last day of the month".toList
  else if field = "LW".toList ∨ field = "WL".toList then
    some ", on the last weekday of the month".toList
  else match nearestDay? field with
    | some day => do
        let day ← Text.readInteger? day
        let shown :=
          if day = 1 then "first weekday".toList
          else "weekday nearest day ".toList ++ Text.signed day
        return ", on the ".toList ++ shown ++ " of the month".toList
    | none =>
        let offset := if "L-".toList.isPrefixOf field then leadingNumber? (field.drop 2) else none
        match offset with
        | some days =>
            some (", ".toList ++ days ++ " days before the last day of the month".toList)
        | none => describe daysVoice field

def describeWeekdays (field : List Char) : Option (List Char) :=
  if field = ['*'] then some [] else describe weekdaysVoice field

/-- Leaves out what goes without saying, and a comma that nothing follows. -/
def concise (text : List Char) : List Char :=
  let said := Text.replaceAll ", every day" "" (Text.replaceAll ", every hour" ""
    (Text.replaceAll ", every minute" "" text))
  match said.reverse with
  | ' ' :: ',' :: rest => rest.reverse
  | ',' :: rest => rest.reverse
  | _ => said

def capitalized : List Char → Option (List Char)
  | [] => none
  | first :: rest => some (first.toUpper :: rest)

def ofParts? (parts : Parts) : Option (List Char) := do
  let time ← describeTime parts
  let days ← describeDays parts.days
  let months ← describe monthsVoice parts.months
  let weekdays ← describeWeekdays parts.weekdays
  let years ← describe yearsVoice parts.years
  capitalized (concise (time ++ days ++ weekdays ++ months ++ years))

end Sentence

def invalidSentence : String := "Invalid cron expression"

def explain (expression : List Char) : List Char :=
  ((Sentence.Parts.ofWords? (Text.words expression)).bind fun parts =>
    Sentence.ofParts? parts.normalized).getD invalidSentence.toList

end Recurrence.Crontab
