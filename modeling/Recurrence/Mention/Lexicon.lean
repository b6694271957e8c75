import Recurrence.Calendar.Names
import Recurrence.Mention.Token
import Recurrence.Text.LowerCase

namespace Recurrence.Mention

/-! The words that count where dates and times are mentioned. They are read in any case. -/

inductive TimeUnit where
  | hour | minute | second
deriving DecidableEq, Repr

def TimeUnit.finer? : TimeUnit → Option TimeUnit
  | .hour => some .minute
  | .minute => some .second
  | .second => none

inductive Half where
  | am | pm
deriving DecidableEq, Repr

/-- Moves an hour into its half of the day. Hours beyond twelve stay where they are. -/
def Half.place (half : Half) (hour : Nat) : Nat :=
  match half with
  | .am => if hour = 12 then 0 else hour
  | .pm => if hour < 12 then hour + 12 else hour

namespace Token

def isAmong (words : List String) (token : Token) : Bool :=
  words.any (·.toList == Text.lower token)

/-- What stands between the parts of a date or a time and means nothing. -/
def isFiller (token : Token) : Bool :=
  token.isAmong [" ", ".", ",", ";", "-", "/", "'", "at", "on", "and", "ad", "m", "t", "of",
    "st", "nd", "rd", "th"]

def unit? (token : Token) : Option TimeUnit :=
  if token.isAmong ["h", "hour", "hours"] then some .hour
  else if token.isAmong ["m", "minute", "minutes"] then some .minute
  else if token.isAmong ["s", "second", "seconds"] then some .second
  else none

def half? (token : Token) : Option Half :=
  if token.isAmong ["am", "a"] then some .am
  else if token.isAmong ["pm", "p"] then some .pm
  else none

/-- A weekday by its full name or the first three letters of it. -/
def weekday? (token : Token) : Option Weekday :=
  let word := Text.lower token
  Weekday.all.find? fun day =>
    word == Text.lower day.name.toList || word == Text.lower day.shortName

def month? (token : Token) : Option Nat :=
  Month.ofWord? (Text.lower token)

def isUniversalZone (token : Token) : Bool :=
  ["UTC", "GMT", "Z", "z"].any (·.toList == token)

def isZoneName (token : Token) : Bool :=
  token.length ≤ 5 && (token.all (fun c => 'A' ≤ c && c ≤ 'Z') || token.isUniversalZone)

def isSign (token : Token) : Bool :=
  token == ['+'] || token == ['-']

end Token

end Recurrence.Mention
