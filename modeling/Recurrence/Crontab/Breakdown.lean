import Recurrence.Crontab.Field

namespace Recurrence.Crontab

/-! A schedule explained field by field. Each explanation is read off the field's text
alone; whether the values exist is not asked. -/

def explainField (value label : List Char) : List Char :=
  if value = ['*'] then "every ".toList ++ label
  else if ['*', '/'].isPrefixOf value then
    "every ".toList ++ value.drop 2 ++ ' ' :: label ++ "(s)".toList
  else if value.contains ',' then "at ".toList ++ label ++ "(s) ".toList ++ value
  else match Text.splitFirst? '-' value with
    | some (first, last) =>
        label ++ "s ".toList ++ first ++ " through ".toList ++ last
    | none => "at ".toList ++ label ++ ' ' :: value

def Field.plainLabel : Field → String
  | .minute => "minute"
  | .hour => "hour"
  | .dayOfMonth => "day of month"
  | .month => "month"
  | .dayOfWeek => "day of week"

def explainFields? (expression : List Char) : Option (List (Field × List Char)) :=
  let fields := Text.words expression
  if fields.length = 5 then
    some (Field.all.zipWith (fun field value => (field, explainField value field.plainLabel.toList))
      fields)
  else none

end Recurrence.Crontab
