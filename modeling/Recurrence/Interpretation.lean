import Recurrence.Crontab.Format
import Recurrence.Mention.Clock
import Recurrence.Phrase.Canonical
import Recurrence.Phrase.Loose
import Recurrence.Phrase.Rules

namespace Recurrence

/-! The schedule that a text in plain English describes. The rules for whole phrases come
first. Only a text that none of them reads is asked for the time of day it mentions, once
and as it was written; who answers is left open. -/

inductive Fault where
  | numeralTooLong (fault : Text.NumeralTooLong)
  | unsplittable (fault : Mention.Unsplittable)
deriving DecidableEq, Repr

def Fault.message : Fault → List Char
  | .numeralTooLong fault => fault.message
  | .unsplittable fault => fault.message

/-- Tells the time of day that a text mentions. -/
abbrev TimeTeller := List Char → Except Fault (Option Clock)

/-- A result that stands already, or one that waits for the time a text mentions. -/
inductive Inquiry (α : Type) where
  | settled (result : α)
  | timeOf (text : List Char) (resume : Option Clock → Except Fault α)

namespace Inquiry

def questions : Inquiry α → List (List Char)
  | .settled _ => []
  | .timeOf text _ => [text]

def answer (inquiry : Inquiry α) (teller : TimeTeller) : Except Fault α :=
  match inquiry with
  | .settled result => .ok result
  | .timeOf text resume => do resume (← teller text)

def map (f : α → β) : Inquiry α → Inquiry β
  | .settled result => .settled (f result)
  | .timeOf text resume => .timeOf text fun clock => (resume clock).map f

end Inquiry

def mentionedTime : TimeTeller := fun text =>
  match Mention.time? text with
  | .ok clock => .ok clock
  | .error fault => .error (.unsplittable fault)

/-- The loose reading of a phrase, which is canonical, at the time that the text mentions. -/
def looseInquiry (text phrase : List Char) : Inquiry (Option Reading) :=
  .timeOf text fun clock =>
    match clock with
    | none => .ok none
    | some clock => (Phrase.readLoosely phrase clock).mapError .numeralTooLong

def examplePhrases : List String :=
  ["every 5 minutes", "daily at 9am", "every Monday at 3pm"]

def unreadable (text : List Char) : Reading :=
  let quotedExamples := examplePhrases.map fun phrase => '"' :: phrase.toList ++ ['"']
  .failure ("Could not parse \"".toList ++ text ++ "\". Try phrases like ".toList ++
    Text.joinWith ", " quotedExamples.dropLast ++ ", or ".toList ++
    quotedExamples.getLast?.getD [] ++ ['.'])

/-- A schedule in the layout that is asked for. -/
def Reading.inFormat (reading : Reading) : Crontab.Format → Reading
  | .five => reading
  | .six => reading.withSeconds

def inquire (text : List Char) (format : Crontab.Format) : Except Fault (Inquiry Reading) :=
  if text.all Text.isBlank then
    .ok (.settled (.failure "Please enter a schedule description".toList))
  else
    match Phrase.recognize (Phrase.canonical text) with
    | .error fault => .error (.numeralTooLong fault)
    | .ok (some reading) => .ok (.settled (reading.inFormat format))
    | .ok none =>
        .ok ((looseInquiry text (Phrase.canonical text)).map fun reading =>
          (reading.map (·.inFormat format)).getD (unreadable text))

/-- What a text describes, if the time it mentions is told by a given teller. -/
def interpretWith (teller : TimeTeller) (text : List Char) (format : Crontab.Format) :
    Except Fault Reading := do
  (← inquire text format).answer teller

def interpret (text : List Char) (format : Crontab.Format) : Except Fault Reading :=
  interpretWith mentionedTime text format

end Recurrence
