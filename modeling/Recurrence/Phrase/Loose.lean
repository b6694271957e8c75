import Recurrence.Phrase.Meaning
import Recurrence.Phrase.Vocabulary
import Recurrence.Text.Numeral

namespace Recurrence.Phrase

/-! Phrases that no rule reads as a whole. Where the time of day is known, the weekdays in
the phrase, a step over days, or a word such as "daily" are enough for a schedule. -/

open Pattern

def weekdayMention : PhrasePattern :=
  inOrder [.wordEdge, capture .weekday weekdayWord, optional "s", .wordEdge]

def findWeekdays (text : List Char) : List Weekday :=
  Weekday.sorted ((weekdayMention.occurrences text).filterMap fun found =>
    Weekday.ofWord? (found.captures.text .weekday))

def intervalMention : PhrasePattern :=
  inOrder ["every", blanks, capture .count digits, blanks,
    capture .unit (anyOf ["minute", "hour", "day", "week", "month"]), optional "s"]

/-- The digits of the first interval in a text, if it is one of days. -/
def dayInterval? (text : List Char) : Option (List Char) :=
  match intervalMention.occurrences text with
  | [] => none
  | found :: _ =>
      if found.captures.text .unit = "day".toList then some (found.captures.text .count) else none

def dailyCue : PhrasePattern :=
  inOrder [.wordEdge, anyOf ["every", "daily", "each day"], .wordEdge]

/-- Weekdays at a time, and every day at a time, as schedules that are likely meant. -/
def weekdaysReading (named : List Weekday) (clock : Clock) : Reading :=
  .success (Phrase.weekdays named clock).line.text
    ("On ".toList ++ listNames ", " named ++ atLabel clock) .medium

def dailyReading (clock : Clock) : Reading :=
  .success (Phrase.daily clock).line.text (Phrase.daily clock).confirmation .medium

def dayIntervalReading (digits : List Char) (clock : Clock) :
    Except Text.NumeralTooLong Reading :=
  (Text.readDigits digits).map fun n =>
    if 1 ≤ n ∧ n ≤ 31 then (Phrase.days n clock).reading
    else .failure "Days must be between 1 and 31".toList

/-- The reading of a canonical phrase of which the time of day is known, if it can be read. -/
def readLoosely (phrase : List Char) (clock : Clock) :
    Except Text.NumeralTooLong (Option Reading) :=
  if findWeekdays phrase ≠ [] then .ok (some (weekdaysReading (findWeekdays phrase) clock))
  else match dayInterval? phrase with
    | some digits => (dayIntervalReading digits clock).map some
    | none => .ok (if dailyCue.occurs phrase then some (dailyReading clock) else none)

end Recurrence.Phrase
