import Recurrence.Crontab.Projection

namespace Recurrence.Crontab

/-! Which expressions are accepted. The layout is judged first, then the seconds, then
operators that only some schedulers know, and last whether the five fields make up a
timetable. A timetable that cannot be read is blamed on the leftmost field that breaks the
field grammar. -/

inductive Defect where
  | empty
  | fieldCount (found : Nat)
  | layout (expected : Format) (found : Nat)
  | seconds (fault : FieldFault)
  | operator (symbol : Char)
  | field (fault : FieldFault)
  | timetable (fault : Unreadable)
deriving DecidableEq, Repr

def Defect.message : Defect → List Char
  | .empty => "Cron expression is empty".toList
  | .fieldCount found => "Expected 5 or 6 fields, got ".toList ++ Text.decimal found
  | .layout expected found =>
      "Expected ".toList ++ Text.decimal expected.fieldCount ++ " fields (".toList ++
        expected.fieldNames.toList ++ "), got ".toList ++ Text.decimal found
  | .seconds fault => "Invalid seconds field: ".toList ++ fault.message
  | .operator symbol =>
      "The '".toList ++ symbol :: "' operator is a cron extension and is not supported".toList
  | .field fault => fault.message
  | .timetable fault => fault.message

structure Verdict where
  defect : Option Defect
  format : Option Format
deriving DecidableEq, Repr

def Verdict.valid (verdict : Verdict) : Bool :=
  verdict.defect.isNone

def detectFormat (expression : List Char) : Option Format :=
  match (Text.words expression).length with
  | 5 => some .five
  | 6 => some .six
  | _ => none

/-- The operator that a piece of a field consists of: `L` and `W` alone or behind a number,
both together, a number of weekdays `#`, or `?`. -/
def operatorOf? (piece : List Char) : Option Char :=
  let digits := piece.takeWhile Text.isPlainDigit
  match (piece.dropWhile Text.isPlainDigit).map Char.toUpper, digits with
  | ['L'], _ => some 'L'
  | ['W'], _ :: _ => some 'W'
  | ['L', 'W'], [] => some 'W'
  | ['?'], [] => some '?'
  | '#' :: turn, _ :: _ => if turn ≠ [] ∧ turn.all Text.isPlainDigit then some '#' else none
  | _, _ => none

def fieldPieces (field : List Char) : List (List Char) :=
  (Text.splitAt ',' field).flatMap fun part =>
    (Text.splitAt '/' part).flatMap (Text.splitAt '-')

def firstOperator? (expression : List Char) : Option Char :=
  ((Text.words expression).flatMap fieldPieces).findSome? operatorOf?

/-- What the field grammar finds wrong with the leftmost field that it refuses. -/
def firstFault? (fields : List (List Char)) : Option FieldFault :=
  (Field.all.zip fields).findSome? fun (field, text) =>
    match expandField field.bounds text with
    | .error fault => some fault
    | .ok _ => none

/-- A fault as a defect. A number that is too long to be read ends the whole check. -/
def blame (defect : FieldFault → Defect) (fault : FieldFault) :
    Except Text.NumeralTooLong Defect :=
  match fault with
  | .numeralTooLong tooLong => .error tooLong
  | fault => .ok (defect fault)

def secondsDefect? : Option (List Char) → Except Text.NumeralTooLong (Option Defect)
  | none => .ok none
  | some seconds =>
      match expandField secondsBounds seconds with
      | .ok _ => .ok none
      | .error fault => (blame .seconds fault).map some

def timetableDefect? (fields : List Char) : Except Text.NumeralTooLong (Option Defect) :=
  match Timetable.ofText? fields with
  | some (.error unreadable) =>
      match firstFault? (Text.words fields) with
      | some fault => (blame .field fault).map some
      | none => .ok (some (.timetable unreadable))
  | _ => .ok none

def contentDefect? (expression : List Char) : Except Text.NumeralTooLong (Option Defect) :=
  let (seconds, fields) := splitSeconds expression
  match secondsDefect? seconds with
  | .error tooLong => .error tooLong
  | .ok (some defect) => .ok (some defect)
  | .ok none =>
      match firstOperator? fields with
      | some symbol => .ok (some (.operator symbol))
      | none => timetableDefect? fields

def validate (expression : List Char) (format : Option Format) :
    Except Text.NumeralTooLong Verdict :=
  let found := (Text.words expression).length
  let detected := detectFormat expression
  if found = 0 then .ok ⟨some .empty, none⟩
  else match format <|> detected with
    | none => .ok ⟨some (.fieldCount found), none⟩
    | some expected =>
        if found ≠ expected.fieldCount then .ok ⟨some (.layout expected found), detected⟩
        else (contentDefect? expression).map (⟨·, detected⟩)

end Recurrence.Crontab
