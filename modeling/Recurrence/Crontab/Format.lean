namespace Recurrence.Crontab

/-! The two layouts of a schedule: five fields, or the same five behind a field for
the seconds. -/

inductive Format where
  | five | six
deriving DecidableEq, Repr

namespace Format

def fieldCount : Format → Nat
  | .five => 5
  | .six => 6

def fieldNames : Format → String
  | .five => "minute hour day month weekday"
  | .six => "second minute hour day month weekday"

def text : Format → String
  | .five => "5-field"
  | .six => "6-field"

def ofText? (text : List Char) : Option Format :=
  [five, six].find? (·.text.toList == text)

end Format

end Recurrence.Crontab
