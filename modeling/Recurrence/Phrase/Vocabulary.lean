import Recurrence.Pattern

namespace Recurrence.Phrase

/-! The patterns that phrases are made of. Blanks are optional between all parts. -/

open Pattern

/-- The parts of a phrase whose text decides what it means. -/
inductive Slot where
  | count
  | hour | minute | meridiem | clockWord
  | weekday | weekdays
  | dayOfMonth | month | turn
  | firstHour | firstMeridiem | secondHour | secondMeridiem
  | unit
deriving DecidableEq, Repr

abbrev PhrasePattern := Pattern Slot

/-- The words for a weekday. Of two that start alike the longer one comes first. -/
def weekdayWord : PhrasePattern :=
  anyOf ["monday", "tuesday", "wednesday", "thursday", "friday", "saturday", "sunday",
    "thurs", "thur", "tues", "mon", "tue", "wed", "thu", "fri", "sat", "sun"]

def monthWord : PhrasePattern :=
  anyOf ["january", "february", "march", "april", "may", "june", "july", "august", "september",
    "october", "november", "december", "jan", "feb", "mar", "apr", "jun", "jul", "aug", "sept",
    "sep", "oct", "nov", "dec"]

def meridiemWord : PhrasePattern := anyOf ["am", "pm"]

def timeOfDay : PhrasePattern :=
  anyOf [
    inOrder [capture .hour shortNumber, ":", capture .minute (.seq digit digit), blanks,
      optional (capture .meridiem meridiemWord)],
    inOrder [capture .hour shortNumber, blanks, capture .meridiem meridiemWord],
    capture .clockWord (anyOf ["noon", "midnight"])]

def atTime : PhrasePattern := inOrder [blanks, "at", blanks, timeOfDay]

def maybeAtTime : PhrasePattern := optional atTime

def maybeOfMonth : PhrasePattern :=
  .seq blanks (optional (inOrder ["of", blanks, optional (.seq "the" blanks),
    optional (.seq "every" blanks), "month"]))

def ordinalEnding : PhrasePattern := anyOf ["st", "nd", "rd", "th"]

def turnWords : List (String × Nat) :=
  [("first", 1), ("second", 2), ("third", 3), ("fourth", 4), ("fifth", 5)]

def turnWord : PhrasePattern := anyOf (turnWords.map fun entry => word entry.1)

def everyOrEach : PhrasePattern := anyOf ["every", "each"]

def plural (unit : String) : PhrasePattern := .seq unit (optional "s")

def everyCount (unit : String) : PhrasePattern :=
  inOrder ["every", blanks, capture .count digits, blanks, plural unit]

/-- Weekdays, at least two, with a comma or the word "and" or both between neighbours. -/
def weekdayList : PhrasePattern :=
  .seq weekdayWord (oneOrMore (inOrder [blanks, anyOf [inOrder [",", blanks, "and"], "and", ","],
    blanks, weekdayWord]))

def weekdayAlone : PhrasePattern := inOrder [.wordEdge, weekdayWord, .wordEdge]

end Recurrence.Phrase
