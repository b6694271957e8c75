import Recurrence.Phrase.Meaning
import Recurrence.Phrase.Vocabulary

namespace Recurrence.Phrase

/-! The phrases that are recognized as a whole. Each rule is a pattern and the sense of
what it captured. The first rule whose pattern reads all of a text decides; its numbers may
still lie outside their ranges, and then the reading is a complaint. -/

open Pattern

inductive RangeFault where
  | hourOfHalf (meridiem : List Char)
  | hour
  | minute
  | minuteCount
  | hourCount
  | dayCount
  | dayOfMonth
  | dayOfYearlyMonth (month : Nat)
  | turn
deriving DecidableEq, Repr

def longestMonth (month : Nat) : Nat := daysInMonth 2000 month

def RangeFault.message : RangeFault → List Char
  | .hourOfHalf meridiem => "Hour must be between 1 and 12 when using ".toList ++ meridiem
  | .hour => "Hour must be between 0 and 23".toList
  | .minute => "Minute must be between 0 and 59".toList
  | .minuteCount => "Minutes must be between 1 and 59".toList
  | .hourCount => "Hours must be between 1 and 23".toList
  | .dayCount => "Days must be between 1 and 31".toList
  | .dayOfMonth => "Day must be between 1 and 31".toList
  | .dayOfYearlyMonth month =>
      "Day must be between 1 and ".toList ++ Text.decimal (longestMonth month) ++
        " for ".toList ++ Month.name month
  | .turn => "Weekday occurrence must be between 1st and 5th".toList

inductive SenseFault where
  | outOfRange (fault : RangeFault)
  | numeralTooLong (fault : Text.NumeralTooLong)
deriving DecidableEq, Repr

abbrev Sense := Except SenseFault

def number (digits : List Char) : Sense Nat :=
  match Text.readDigits digits with
  | .ok n => .ok n
  | .error fault => .error (.numeralTooLong fault)

def within (least greatest : Nat) (fault : RangeFault) (n : Nat) : Sense Nat :=
  if least ≤ n ∧ n ≤ greatest then .ok n else .error (.outOfRange fault)

def boundedNumber (digits : List Char) (least greatest : Nat) (fault : RangeFault) : Sense Nat := do
  within least greatest fault (← number digits)

/-- The hour of the day from an hour and, where it is given, its half of the day. -/
def hourOf (digits : List Char) (meridiem : Option (List Char)) : Sense Nat :=
  match meridiem with
  | none => boundedNumber digits 0 23 .hour
  | some meridiem => do
      let hour ← boundedNumber digits 1 12 (.hourOfHalf meridiem)
      return hour % 12 + if meridiem = "pm".toList then 12 else 0

/-- The time of day that was captured; midnight where there is none. -/
def clockOf (captures : Captures Slot) : Sense Clock :=
  match captures.text? .clockWord, captures.text? .hour with
  | some word, _ => .ok (if word = "noon".toList then .noon else .midnight)
  | none, some hourDigits => do
      let hour ← hourOf hourDigits (captures.text? .meridiem)
      match captures.text? .minute with
      | some minuteDigits => return ⟨hour, ← boundedNumber minuteDigits 0 59 .minute⟩
      | none => return ⟨hour, 0⟩
  | none, none => .ok .midnight

/-- The weekday that was captured. Patterns capture only words that mean one. -/
def weekdayOf (captures : Captures Slot) : Weekday :=
  (Weekday.ofWord? (captures.text .weekday)).getD .sunday

/-- The weekdays of a captured list that stand alone in it, in the order of the week. -/
def weekdaysOf (captures : Captures Slot) : List Weekday :=
  let found := weekdayAlone.occurrences (captures.text .weekdays)
  Weekday.sorted (found.filterMap fun day => Weekday.ofWord? day.text)

def monthOf (captures : Captures Slot) : Nat :=
  (Month.ofWord? (captures.text .month)).getD 1

def turnOf (captures : Captures Slot) : Sense Nat := do
  let text := captures.text .turn
  let n ← match turnWords.find? (·.1.toList == text) with
    | some entry => pure entry.2
    | none => number (text.filter Text.isDigit)
  within 1 5 .turn n

/-- Two hours in ascending order, or one if they are the same. -/
def hourPair (first second : Nat) : List Int :=
  if first < second then [(first : Int), second]
  else if first = second then [(first : Int)]
  else [(second : Int), first]

structure Rule where
  pattern : PhrasePattern
  sense : Captures Slot → Sense Phrase

def always (phrase : Phrase) (_ : Captures Slot) : Sense Phrase := .ok phrase

def timed (phrase : Clock → Phrase) (captures : Captures Slot) : Sense Phrase :=
  (clockOf captures).map phrase

def countedDays (captures : Captures Slot) : Sense Phrase := do
  let n ← boundedNumber (captures.text .count) 1 31 .dayCount
  return .days n (← clockOf captures)

def onDayOfMonth (captures : Captures Slot) : Sense Phrase := do
  let day ← boundedNumber (captures.text .dayOfMonth) 1 31 .dayOfMonth
  return .dayOfMonth day (← clockOf captures)

def twiceADayAtHours (captures : Captures Slot) : Sense Phrase := do
  let first ← hourOf (captures.text .firstHour) (captures.text? .firstMeridiem)
  let second ← hourOf (captures.text .secondHour) (captures.text? .secondMeridiem)
  return .twiceADayAt (hourPair first second)

def yearlyOn (captures : Captures Slot) : Sense Phrase := do
  let month := monthOf captures
  let day ← boundedNumber (captures.text .dayOfMonth) 1 (longestMonth month)
    (.dayOfYearlyMonth month)
  return .yearly month day (← clockOf captures)

def nthWeekdayOf (captures : Captures Slot) : Sense Phrase := do
  let n ← turnOf captures
  return .nthWeekday n (weekdayOf captures) (← clockOf captures)

def idioms : List Rule := [
  ⟨inOrder ["every", blanks, "minute"], always .everyMinute⟩,
  ⟨inOrder ["every", blanks, "hour"], always .everyHour⟩,
  ⟨inOrder ["every", blanks, "day"], always .everyDay⟩,
  ⟨"daily", always .everyDay⟩,
  ⟨"hourly", always .everyHour⟩]

def intervals : List Rule := [
  ⟨everyCount "minute", fun captures => do
    return .minutes (← boundedNumber (captures.text .count) 1 59 .minuteCount)⟩,
  ⟨everyCount "hour", fun captures => do
    return .hours (← boundedNumber (captures.text .count) 1 23 .hourCount)⟩,
  ⟨.seq (everyCount "day") atTime, countedDays⟩,
  ⟨everyCount "day", countedDays⟩]

def timesOfDay : List Rule := [
  ⟨inOrder [optional (inOrder ["every", blanks, "day", blanks]), "at", blanks, timeOfDay],
    timed .daily⟩,
  ⟨.seq "daily" atTime, timed .daily⟩,
  ⟨inOrder ["every", blanks, capture .weekday weekdayWord, maybeAtTime],
    fun captures => timed (.weekday (weekdayOf captures)) captures⟩,
  ⟨inOrder [optional (.seq (anyOf ["on", "every"]) blanks), plural "weekday", maybeAtTime],
    timed .workdays⟩,
  ⟨inOrder [optional (.seq (anyOf ["on", "every"]) blanks), plural "weekend", maybeAtTime],
    timed .weekend⟩,
  ⟨inOrder ["every", blanks, capture .weekdays weekdayList, maybeAtTime],
    fun captures => timed (.weekdays (weekdaysOf captures)) captures⟩]

def onMonthDay (day : PhrasePattern) : PhrasePattern :=
  inOrder [optional (.seq "on" blanks), optional (.seq "the" blanks), day, blanks,
    optional (.seq "day" blanks), optional (.seq "of" blanks), optional everyOrEach, blanks,
    "month", maybeAtTime]

def monthly : List Rule := [
  ⟨onMonthDay "1st", timed .firstOfMonth⟩,
  ⟨onMonthDay (.seq (capture .dayOfMonth shortNumber) (optional ordinalEnding)), onDayOfMonth⟩,
  ⟨inOrder [everyOrEach, blanks, "month"], always .everyMonth⟩,
  ⟨"monthly", always .everyMonth⟩]

def twiceADayWords : PhrasePattern :=
  inOrder ["twice", blanks, anyOf ["a", "per"], blanks, "day"]

def twice : List Rule := [
  ⟨twiceADayWords, always .twiceADay⟩,
  ⟨inOrder [twiceADayWords, blanks, "at", blanks,
      capture .firstHour shortNumber, blanks, capture .firstMeridiem meridiemWord, blanks,
      anyOf ["and", ","], blanks,
      capture .secondHour shortNumber, blanks, capture .secondMeridiem meridiemWord],
    twiceADayAtHours⟩]

def weeklyAndYearly : List Rule := [
  ⟨inOrder [everyOrEach, blanks, "week"], always .everyWeek⟩,
  ⟨"weekly", always .everyWeek⟩,
  ⟨inOrder [everyOrEach, blanks, "year"], always .everyYear⟩,
  ⟨"yearly", always .everyYear⟩,
  ⟨"annually", always .everyYear⟩,
  ⟨inOrder [everyOrEach, blanks, optional (inOrder ["year", blanks, "on", blanks]),
      capture .month monthWord, blanks, capture .dayOfMonth shortNumber, optional ordinalEnding,
      maybeAtTime],
    yearlyOn⟩]

def everyOrThe : PhrasePattern := optional (.seq (anyOf ["every", "the"]) blanks)

def nthWeekdayPattern (ordinal : PhrasePattern) : PhrasePattern :=
  inOrder [optional (.seq "every" blanks), optional (.seq "the" blanks), capture .turn ordinal,
    blanks, capture .weekday weekdayWord, maybeOfMonth, maybeAtTime]

/-- Phrases that five fields cannot say. -/
def approximations : List Rule := [
  ⟨inOrder [everyOrThe, "last", blanks, capture .weekday weekdayWord, maybeOfMonth, maybeAtTime],
    fun captures => timed (.lastWeekday (weekdayOf captures)) captures⟩,
  ⟨nthWeekdayPattern (.seq digits ordinalEnding), nthWeekdayOf⟩,
  ⟨inOrder [everyOrThe, "last", blanks, "day", maybeOfMonth, maybeAtTime], timed .lastDayOfMonth⟩,
  ⟨nthWeekdayPattern turnWord, nthWeekdayOf⟩,
  ⟨everyCount "week", fun captures => do return .weeks (← number (captures.text .count))⟩]

def rules : List Rule :=
  idioms ++ intervals ++ timesOfDay ++ monthly ++ twice ++ weeklyAndYearly ++ approximations

def Rule.reading? (rule : Rule) (text : List Char) : Option (Sense Phrase) :=
  (rule.pattern.whole? text).map rule.sense

/-- The reading of a recognized phrase, or of one whose numbers are out of range. -/
def readingOf (sense : Sense Phrase) : Except Text.NumeralTooLong Reading :=
  match sense with
  | .ok phrase => .ok phrase.reading
  | .error (.outOfRange fault) => .ok (.failure fault.message)
  | .error (.numeralTooLong fault) => .error fault

/-- The reading by the first rule that applies, if there is one. -/
def recognize (text : List Char) : Except Text.NumeralTooLong (Option Reading) :=
  match rules.findSome? (·.reading? text) with
  | some sense => (readingOf sense).map some
  | none => .ok none

end Recurrence.Phrase
