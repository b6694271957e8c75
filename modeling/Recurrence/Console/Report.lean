import Recurrence.Calendar.Label
import Recurrence.Console.Arguments
import Recurrence.Console.Display
import Recurrence.Console.Table
import Recurrence.Crontab.Breakdown
import Recurrence.Crontab.Sentence
import Recurrence.Crontab.Validation
import Recurrence.Defaults
import Recurrence.Interpretation

namespace Recurrence.Console

/-! What commands print, and the exit codes they end with. A fault that ends the reading of a text
or an expression ends the command as well: nothing is reported then. -/

open Crontab

structure Report where
  exitCode : Nat
  output : List Char
deriving DecidableEq, Repr

namespace Report

def success (output : List Char) : Report := ⟨0, output⟩

def complaint (text : List Char) : Report := ⟨1, labelled "Error: " text⟩

def misuse : Report := ⟨2, []⟩

end Report

def versionLine : List Char := line "cronspeak 0.1.0".toList

def runsTable (runs : List Moment) (now : Moment) : Table where
  title := some "Next runs".toList
  header := some ["#".toList, "When".toList, "Relative".toList]
  rows := runs.mapIdx fun index run =>
    [Text.decimal (index + 1), run.label, run.relativeLabel now]

/-- A table of the next runs, if there are any. At most as many are shown as may be set. -/
def nextRunsTable? (expression : List Char) (count : Int) (format : Format) (now : Moment) :
    Option Table :=
  match nextRuns expression (min count mostRuns) format now with
  | [] => none
  | runs => some (runsTable runs now)

def readingTable (reading : Reading) (schedule : List Char) (format : Format) : Table where
  title := none
  header := none
  rows :=
    [["Format".toList, format.text.toList], ["Confidence".toList, reading.confidence.text.toList]]
    ++ (match reading.interpretation with
      | some meaning => if meaning = [] then [] else [["Understood".toList, meaning]]
      | none => [])
    ++ [["Meaning".toList, explain schedule]]

def readingReport (reading : Reading) (format : Format) (count : Int) (now : Moment) : Report :=
  match reading.outcome with
  | .error complaint => .complaint complaint
  | .ok schedule =>
      let warning := match reading.warning with
        | some warning => if warning = [] then [] else labelled "Approximation: " warning
        | none => []
      let runs :=
        if 0 < count then ((nextRunsTable? schedule count format now).map Table.draw).getD []
        else []
      .success (line schedule ++ (readingTable reading schedule format).draw ++ warning ++ runs)

def interpretReport (text : List Char) (format : Format) (count : Int) (now : Moment) :
    Except Fault Report :=
  (interpret text format).map fun reading => readingReport reading format count now

/-- What is wrong with a refused expression, or what there is to tell about an accepted one. -/
def verdictReport (verdict : Verdict) (print : Verdict → List Char) : Report :=
  match verdict.defect with
  | some defect => .complaint defect.message
  | none => .success (print verdict)

def expressionReport (expression : List Char) (format : Option Format)
    (print : Verdict → List Char) : Except Fault Report :=
  match validate expression format with
  | .error tooLong => .error (.numeralTooLong tooLong)
  | .ok verdict => .ok (verdictReport verdict print)

def validityLine (verdict : Verdict) : List Char :=
  line ("✓ Valid ".toList ++ ((verdict.format.map (·.text.toList)).getD []) ++ " expression".toList)

def fieldsTable (expression : List Char) : Table :=
  let (seconds, fields) := splitSeconds expression
  let secondsRow := match seconds with
    | some seconds => [["second".toList, seconds, "ignored for run times".toList]]
    | none => []
  let rows := (Text.words fields).zipWith
    (fun text (field, meaning) => [Field.plainLabel field |>.toList, text, meaning])
    ((explainFields? fields).getD [])
  ⟨none, some ["Field".toList, "Value".toList, "Meaning".toList], secondsRow ++ rows⟩

def explanation (expression : List Char) (fields : Bool) : List Char :=
  line (explain expression) ++ if fields then (fieldsTable expression).draw else []

def nextOutput (expression : List Char) (count : Int) (format : Format) (now : Moment) :
    List Char :=
  match nextRunsTable? expression count format now with
  | some table => table.draw
  | none => line "No upcoming runs".toList

def Command.report (command : Command) (defaults : Defaults) (now : Moment) :
    Except Fault Report :=
  match command with
  | .version => .ok (.success versionLine)
  | .interpret text format runs =>
      interpretReport text (format.getD defaults.format) (runs.getD defaults.runs) now
  | .validate expression format => expressionReport expression format validityLine
  | .explain expression fields =>
      expressionReport expression none fun _ => explanation expression fields
  | .next expression format runs =>
      let format := (format <|> detectFormat expression).getD defaults.format
      expressionReport expression (some format) fun _ =>
        nextOutput expression (runs.getD defaults.runs) format now

def report (arguments : List Argument) (environment : List (List Char × List Char))
    (now : Moment) : Except Fault Report :=
  match Command.ofArguments? arguments with
  | some command => command.report (.ofEnvironment environment) now
  | none => .ok .misuse

end Recurrence.Console
