import Recurrence.Text.LowerCase
import Recurrence.Text.Quoted

namespace Recurrence

/-! Weekdays and months: their English names, and the words by which they are looked
up. -/

inductive Weekday where
  | sunday | monday | tuesday | wednesday | thursday | friday | saturday
deriving DecidableEq, Repr

namespace Weekday

def all : List Weekday :=
  [.sunday, .monday, .tuesday, .wednesday, .thursday, .friday, .saturday]

def code : Weekday → Nat
  | .sunday => 0
  | .monday => 1
  | .tuesday => 2
  | .wednesday => 3
  | .thursday => 4
  | .friday => 5
  | .saturday => 6

def afterSunday (n : Nat) : Weekday :=
  match n % 7 with
  | 0 => .sunday
  | 1 => .monday
  | 2 => .tuesday
  | 3 => .wednesday
  | 4 => .thursday
  | 5 => .friday
  | _ => .saturday

def name : Weekday → String
  | .sunday => "Sunday"
  | .monday => "Monday"
  | .tuesday => "Tuesday"
  | .wednesday => "Wednesday"
  | .thursday => "Thursday"
  | .friday => "Friday"
  | .saturday => "Saturday"

def shortName (day : Weekday) : List Char :=
  day.name.toList.take 3

/-- The days of a list in the order of the week, each once. -/
def sorted (days : List Weekday) : List Weekday :=
  all.filter days.contains

def lexicon : List (String × Weekday) := [
  ("sunday", .sunday), ("sun", .sunday),
  ("monday", .monday), ("mon", .monday),
  ("tuesday", .tuesday), ("tue", .tuesday), ("tues", .tuesday),
  ("wednesday", .wednesday), ("wed", .wednesday),
  ("thursday", .thursday), ("thu", .thursday), ("thur", .thursday), ("thurs", .thursday),
  ("friday", .friday), ("fri", .friday),
  ("saturday", .saturday), ("sat", .saturday)]

def ofWord? (word : List Char) : Option Weekday :=
  (lexicon.find? (·.1.toList == word)).map (·.2)

end Weekday

namespace Month

def names : List String :=
  ["January", "February", "March", "April", "May", "June", "July", "August", "September",
    "October", "November", "December"]

def name? : Nat → Option (List Char)
  | 0 => none
  | before + 1 => (names[before]?).map String.toList

def name (month : Nat) : List Char :=
  (name? month).getD []

def shortName (month : Nat) : List Char :=
  (name month).take 3

/-- Every word that means a month. -/
def lexicon : List (String × Nat) := [
  ("january", 1), ("jan", 1),
  ("february", 2), ("feb", 2),
  ("march", 3), ("mar", 3),
  ("april", 4), ("apr", 4),
  ("may", 5),
  ("june", 6), ("jun", 6),
  ("july", 7), ("jul", 7),
  ("august", 8), ("aug", 8),
  ("september", 9), ("sep", 9), ("sept", 9),
  ("october", 10), ("oct", 10),
  ("november", 11), ("nov", 11),
  ("december", 12), ("dec", 12)]

def ofWord? (word : List Char) : Option Nat :=
  (lexicon.find? (·.1.toList == word)).map (·.2)

end Month

/-- A word, in lower case, that a lexicon does not hold. -/
structure UnknownName where
  word : List Char
deriving DecidableEq, Repr

def UnknownName.message (fault : UnknownName) : List Char :=
  Text.quoted fault.word

/-- Looks up a word that may be written in any case. -/
def lookUpName (ofWord? : List Char → Option α) (name : List Char) : Except UnknownName α :=
  match ofWord? (Text.lower name) with
  | some meaning => .ok meaning
  | none => .error ⟨Text.lower name⟩

end Recurrence
