import Recurrence.Text.Numeral
import Recurrence.Text.Segment

namespace Recurrence.Crontab

/-! Schedules that phrases produce, field by field, and the text they are written
as. -/

inductive Term where
  | any
  | every (step : Int)
  | only (values : List Int)
  | span (first last : Int)
deriving DecidableEq, Repr

def Term.text : Term → List Char
  | .any => ['*']
  | .every step => '*' :: '/' :: Text.signed step
  | .only values => Text.joinWith "," (values.map Text.signed)
  | .span first last => Text.signed first ++ '-' :: Text.signed last

def Term.value (n : Int) : Term := .only [n]

structure Line where
  minute : Term
  hour : Term
  dayOfMonth : Term
  month : Term
  dayOfWeek : Term
deriving DecidableEq, Repr

def Line.terms (line : Line) : List Term :=
  [line.minute, line.hour, line.dayOfMonth, line.month, line.dayOfWeek]

def Line.text (line : Line) : List Char :=
  Text.joinWith " " (line.terms.map Term.text)

end Recurrence.Crontab
