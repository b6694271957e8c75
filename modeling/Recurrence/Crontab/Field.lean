import Recurrence.Text.Blank
import Recurrence.Text.Numeral
import Recurrence.Text.Quoted
import Recurrence.Text.Segment

namespace Recurrence.Crontab

/-! The field grammar. A field is a comma list of parts; a part is `*`, a number or a
range, the first and the last optionally with a step. `expandField` gives the values a
field stands for, in ascending order, or the first thing that is wrong with it. -/

/-- The values that a field may hold, and what the field is called. -/
structure Bounds where
  label : List Char
  min : Int
  max : Int
deriving DecidableEq, Repr

inductive FieldFault where
  | empty (label : List Char)
  | notNumber (label text : List Char)
  | stepOutOfRange (label : List Char) (step max : Int)
  | stepWithoutRange (part : List Char)
  | rangeOutOfBounds (bounds : Bounds) (range : List Char)
  | valueOutOfRange (bounds : Bounds) (value : Int)
  | numeralTooLong (fault : Text.NumeralTooLong)
deriving DecidableEq, Repr

def FieldFault.message : FieldFault → List Char
  | .empty label => "Empty ".toList ++ label ++ " field".toList
  | .notNumber label text =>
      label ++ " value ".toList ++ Text.quoted text ++ " is not a number".toList
  | .stepOutOfRange label step max =>
      label ++ " step ".toList ++ Text.signed step ++ " out of range (1-".toList ++
        Text.signed max ++ [')']
  | .stepWithoutRange part => "Invalid step syntax: ".toList ++ part
  | .rangeOutOfBounds bounds range =>
      bounds.label ++ " range ".toList ++ range ++ " out of bounds (".toList ++
        Text.signed bounds.min ++ '-' :: Text.signed bounds.max ++ [')']
  | .valueOutOfRange bounds value =>
      bounds.label ++ " value ".toList ++ Text.signed value ++ " out of range (".toList ++
        Text.signed bounds.min ++ '-' :: Text.signed bounds.max ++ [')']
  | .numeralTooLong fault => fault.message

/-- `first`, `first + step`, … as long as `last` is not passed. -/
def stepped (first last step : Int) : List Int :=
  if first ≤ last then
    (List.range ((last - first) / step).toNat.succ).map fun k : Nat => first + step * k
  else []

def insertAscending (value : Int) : List Int → List Int
  | [] => [value]
  | least :: others =>
      if value < least then value :: least :: others
      else if value = least then least :: others
      else least :: insertAscending value others

/-- The values of a list in ascending order, each once. -/
def ascending (values : List Int) : List Int :=
  values.foldr insertAscending []

def readNumber (label text : List Char) : Except FieldFault Int :=
  if text ≠ [] ∧ text.all Text.isPlainDigit then
    match Text.readDigits text with
    | .ok value => .ok value
    | .error fault => .error (.numeralTooLong fault)
  else .error (.notNumber label text)

/-- The part before the step, and the step, which is 1 where none is written. -/
def readStep (bounds : Bounds) (part : List Char) : Except FieldFault (List Char × Int) :=
  match Text.splitFirst? '/' part with
  | none => .ok (part, 1)
  | some (base, stepText) =>
      match readNumber (bounds.label ++ " step".toList) stepText with
      | .error fault => .error fault
      | .ok step =>
          if step < 1 ∨ bounds.max < step then .error (.stepOutOfRange bounds.label step bounds.max)
          else if base ≠ ['*'] ∧ !base.contains '-' then .error (.stepWithoutRange part)
          else .ok (base, step)

def expandBase (bounds : Bounds) (base : List Char) (step : Int) : Except FieldFault (List Int) :=
  if base = ['*'] then .ok (stepped bounds.min bounds.max step)
  else match Text.splitFirst? '-' base with
    | some (firstText, lastText) =>
        match readNumber bounds.label firstText with
        | .error fault => .error fault
        | .ok first =>
            match readNumber bounds.label lastText with
            | .error fault => .error fault
            | .ok last =>
                if first < bounds.min ∨ bounds.max < last ∨ last < first then
                  .error (.rangeOutOfBounds bounds base)
                else .ok (stepped first last step)
    | none =>
        match readNumber bounds.label base with
        | .error fault => .error fault
        | .ok value =>
            if value < bounds.min ∨ bounds.max < value then .error (.valueOutOfRange bounds value)
            else .ok [value]

def expandPart (bounds : Bounds) (part : List Char) : Except FieldFault (List Int) :=
  if part = [] then .error (.empty bounds.label)
  else match readStep bounds part with
    | .error fault => .error fault
    | .ok (base, step) => expandBase bounds base step

/-- The values of several parts one after the other, up to the first fault. -/
def expandParts (bounds : Bounds) : List (List Char) → Except FieldFault (List Int)
  | [] => .ok []
  | part :: others =>
      match expandPart bounds (Text.trim part) with
      | .error fault => .error fault
      | .ok values =>
          match expandParts bounds others with
          | .error fault => .error fault
          | .ok further => .ok (values ++ further)

/-- The values of a field. Blanks are allowed around the parts of a list. -/
def expandField (bounds : Bounds) (field : List Char) : Except FieldFault (List Int) :=
  if field.contains ',' then
    (expandParts bounds (Text.splitAt ',' field)).map ascending
  else expandPart bounds field

/-! The fields of a schedule, in their order. -/

inductive Field where
  | minute | hour | dayOfMonth | month | dayOfWeek
deriving DecidableEq, Repr

namespace Field

def all : List Field := [.minute, .hour, .dayOfMonth, .month, .dayOfWeek]

def label : Field → String
  | .minute => "minute"
  | .hour => "hour"
  | .dayOfMonth => "day-of-month"
  | .month => "month"
  | .dayOfWeek => "day-of-week"

def least : Field → Nat
  | .dayOfMonth | .month => 1
  | _ => 0

def greatest : Field → Nat
  | .minute => 59
  | .hour => 23
  | .dayOfMonth => 31
  | .month => 12
  | .dayOfWeek => 6

def bounds (field : Field) : Bounds :=
  ⟨field.label.toList, field.least, field.greatest⟩

end Field

def secondsBounds : Bounds := ⟨"seconds".toList, 0, 59⟩

end Recurrence.Crontab
