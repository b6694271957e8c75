import Recurrence.Crontab.Format
import Recurrence.Text.LowerCase
import Recurrence.Text.Numeral

namespace Recurrence

/-! What is assumed where nothing is asked for: the layout of schedules and the number of
runs to show. Both may be set by the environment, under names of any case, and by values
that are given directly; a value that is given decides alone. Settings that make no sense
are passed over, the number of runs always ends up in its range, and only values that
cannot be settings at all are refused. -/

/-- A binary floating-point number; a finite one is `significand * 2 ^ exponent`. -/
inductive BinaryNumber where
  | finite (significand exponent : Int)
  | infinite
  | notANumber
deriving DecidableEq, Repr

def wholePart (significand exponent : Int) : Int :=
  if 0 ≤ exponent then significand * Nat.pow 2 exponent.toNat
  else significand.tdiv (Nat.pow 2 (-exponent).toNat)

inductive Given where
  | text (text : List Char)
  | whole (n : Int)
  | binary (number : BinaryNumber)
  | truth (value : Bool)
  /-- Nothing, or something that consists of several values. -/
  | other
deriving DecidableEq, Repr

inductive Refusal where
  /-- A name that no setting has, or a layout that is no text. -/
  | invalid
  /-- A number of runs without end. -/
  | endless
deriving DecidableEq, Repr

def endlessMessage : String := "cannot convert float infinity to integer"

def leastRuns : Nat := 1

def mostRuns : Nat := 50

structure Defaults where
  format : Crontab.Format
  runs : Nat
  leastRuns_le : leastRuns ≤ runs
  runs_le : runs ≤ mostRuns
deriving DecidableEq

namespace Defaults

def usualRuns : Nat := 5

def wholeNumber? : Given → Except Refusal (Option Int)
  | .text text => .ok (Text.readInteger? text)
  | .whole n => .ok (some n)
  | .binary (.finite significand exponent) => .ok (some (wholePart significand exponent))
  | .binary .infinite => .error .endless
  | .binary .notANumber => .ok none
  | .truth value => .ok (some (if value then 1 else 0))
  | .other => .ok none

/-- The layout that a value names. A text that names none means the usual one. -/
def formatOf : Given → Except Refusal Crontab.Format
  | .text text => .ok ((Crontab.Format.ofText? text).getD .five)
  | _ => .error .invalid

def within (format : Crontab.Format) (runs : Int) : Defaults where
  format := format
  runs := min (max leastRuns runs.toNat) mostRuns
  leastRuns_le := by simp only [leastRuns, mostRuns]; omega
  runs_le := by omega

def formatName : List Char := "format".toList

def runsName : List Char := "count".toList

def variablePrefix : List Char := "cronspeak_".toList

/-- The value of the variable for a setting. Of variables whose names differ in case only,
the last one counts. -/
def fromEnvironment? (environment : List (List Char × List Char)) (setting : List Char) :
    Option (List Char) :=
  (environment.reverse.find? (Text.lower ·.1 = variablePrefix ++ setting)).map (·.2)

/-- The value that is given for a setting, or else the one in the environment. -/
def value? (environment : List (List Char × List Char)) (given : List (List Char × Given))
    (setting : List Char) : Option Given :=
  match given.find? (·.1 = setting) with
  | some entry => some entry.2
  | none => (fromEnvironment? environment setting).map .text

/-- The settings that an environment and given values make. An endless number of runs is
refused before anything else. -/
def load (environment : List (List Char × List Char)) (given : List (List Char × Given)) :
    Except Refusal Defaults := do
  let runs ← match value? environment given runsName with
    | some value => wholeNumber? value
    | none => pure none
  let format ← match value? environment given formatName with
    | some value => formatOf value
    | none => pure .five
  if given.all fun entry => entry.1 = formatName || entry.1 = runsName then
    return within format (runs.getD usualRuns)
  else throw .invalid

/-- The settings that an environment makes. Its values are texts, of which none is refused. -/
def ofEnvironment (environment : List (List Char × List Char)) : Defaults :=
  let runs := (fromEnvironment? environment runsName).bind Text.readInteger?
  let format := (fromEnvironment? environment formatName).bind Crontab.Format.ofText?
  within (format.getD .five) (runs.getD usualRuns)

end Defaults

end Recurrence
