import Recurrence.Calendar.Moment
import Recurrence.Mention.DateNumbers
import Recurrence.Mention.Lexicon

namespace Recurrence.Mention

/-! What has been found in a text so far, and the moment that it makes of a moment to
start from. -/

inductive Obstacle where
  | notADate
  | unsplittable (fault : Unsplittable)
deriving DecidableEq, Repr

abbrev Step := Except Obstacle

def Step.of? (value : Option α) : Step α :=
  match value with
  | some value => .ok value
  | none => .error .notADate

structure Findings where
  date : DateNumbers
  weekday : Option Weekday
  hour : Option Nat
  minute : Option Nat
  second : Option Nat
  microsecond : Option Nat
  half : Option Half
  zone : Option Token
  /-- The distance from universal time, in seconds. -/
  offset : Option Int
deriving DecidableEq, Repr

namespace Findings

def nothing : Findings :=
  ⟨.empty, none, none, none, none, none, none, none, none⟩

/-- Time zones lie at most this many days away from universal time. -/
def maxOffsetDays : Int := 999999999

/-- The name of a zone that is nothing but universal time makes every offset meaningless. -/
def hasOffsetInRange (found : Findings) : Bool :=
  match found.offset with
  | none => true
  | some offset =>
      found.zone.any Token.isUniversalZone ||
        -maxOffsetDays ≤ offset / 86400 && offset / 86400 ≤ maxOffsetDays

def hasAny (found : Findings) : Bool :=
  !found.date.numbers.isEmpty || found.weekday.isSome || found.hour.isSome ||
    found.minute.isSome || found.second.isSome || found.microsecond.isSome

/-- A moment with the parts that were found put in place of its own. A weekday that was
found does not move it. -/
def onto? (found : Findings) (start : Moment) : Option Moment := do
  let parts ← found.date.parts?
  let year := match parts.year with
    | some year => fullYear year found.date.centuryTold
    | none => start.date.year
  let date ← Date.of? year (parts.month.getD start.date.month) (parts.day.getD start.date.day)
  Moment.of? date (found.hour.getD start.hour) (found.minute.getD start.minute)
    (found.second.getD start.second) (found.microsecond.getD start.microsecond)

def moment? (found : Findings) (start : Moment) : Option Moment :=
  if found.hasAny ∧ found.hasOffsetInRange then found.onto? start else none

end Findings

end Recurrence.Mention
