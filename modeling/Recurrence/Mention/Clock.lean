import Recurrence.Clock
import Recurrence.Mention.Reader
import Recurrence.Pattern

namespace Recurrence.Mention

/-! The time of day that a text mentions. A clock phrase, such as "at 9" or "around 8:30",
decides if its numbers lie in their ranges. Else the text is read as a date and a time, and
only an hour that really stands there counts: one that does not depend on the moment from
which the reading starts. -/

open Pattern

inductive ClockPart where
  | hour | minute | half
deriving DecidableEq, Repr

def clockPhrase : Pattern ClockPart :=
  inOrder [
    .wordEdge,
    anyOf [wordEitherCase "at", wordEitherCase "around", wordEitherCase "about"],
    oneOrMore (.one .blank),
    capture .hour shortNumber,
    optional (.seq ":" (capture .minute (.seq digit digit))),
    optional (inOrder [blanks, capture .half (.one (.union (.eitherCase 'a') (.eitherCase 'p'))),
      optional ".", wordEitherCase "m", optional "."]),
    .notAhead (.union .wordChar (.union (.exactly ':') (.exactly '.')))]

def clockOfPhrase? (captures : Captures ClockPart) : Option Clock :=
  let hour := Text.digitsValue (captures.text .hour)
  let minute := Text.digitsValue (captures.text .minute)
  if 59 < minute then none
  else match captures.text? .half with
    | some half =>
        if 1 ≤ hour ∧ hour ≤ 12 then
          some ⟨(hour % 12 + if half = ['p'] ∨ half = ['P'] then 12 else 0 : Nat), minute⟩
        else none
    | none => if hour ≤ 23 then some ⟨hour, minute⟩ else none

/-- The time of the leftmost clock phrase whose numbers lie in their ranges. -/
def phrasedTime? (text : List Char) : Option Clock :=
  (clockPhrase.occurrences text).findSome? fun found => clockOfPhrase? found.captures

def dayStart : Moment where
  date := (Date.of? 2000 1 1).get (by decide)
  hour := 0
  minute := 0
  second := 0
  microsecond := 0
  hour_lt := by decide
  minute_lt := by decide
  second_lt := by decide
  microsecond_lt := by decide

def afternoon : Moment :=
  { dayStart with hour := 13, minute := 37, hour_lt := by decide, minute_lt := by decide }

/-- The time of day on which a reading from two different hours agrees. -/
def certainTime? (first second : Moment) : Option Clock :=
  if first.hour = second.hour then some ⟨first.hour, first.minute⟩ else none

def writtenTime? (text : List Char) : Except Unsplittable (Option Clock) :=
  match findings text with
  | .ok found => .ok do
      let first ← found.moment? dayStart
      let second ← found.moment? afternoon
      certainTime? first second
  | .error .notADate => .ok none
  | .error (.unsplittable fault) => .error fault

def time? (text : List Char) : Except Unsplittable (Option Clock) :=
  match phrasedTime? text with
  | some clock => .ok (some clock)
  | none => writtenTime? text

end Recurrence.Mention
