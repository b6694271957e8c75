import Recurrence.Console.Report
import Std.Internal.UV.System
import Std.Time.Zoned

/-! The program: it looks at its arguments, the environment and the clock, and prints the
report, or the fault that leaves it without one. -/

namespace Recurrence.Console

/-- All variables, in the order in which the environment has them. -/
def environment : IO (List (List Char × List Char)) := do
  let entries ← Std.Internal.UV.System.osEnviron
  return entries.toList.map fun (name, value) => (name.toList, value.toList)

def now : IO Moment := do
  let time ← Std.Time.PlainDateTime.now
  let moment? := do
    let date ← Date.of? time.year.toInt.toNat time.month.val.toNat time.day.val.toNat
    Moment.of? date time.hour.val.toNat time.minute.val.toNat time.second.val.toNat
      (time.nanosecond.val.toNat / 1000)
  match moment? with
  | some moment => return moment
  | none => throw (IO.userError "the clock shows no moment of the calendar")

end Recurrence.Console

def main (arguments : List String) : IO UInt32 := do
  let reported := Recurrence.Console.report (arguments.map String.toList)
    (← Recurrence.Console.environment) (← Recurrence.Console.now)
  match reported with
  | .ok report =>
      (← IO.getStdout).putStr (String.ofList report.output)
      return report.exitCode.toUInt32
  | .error fault => throw (IO.userError (String.ofList fault.message))
