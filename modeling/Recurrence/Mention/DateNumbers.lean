import Recurrence.Calendar.Date
import Recurrence.Mention.Amount

namespace Recurrence.Mention

/-! The numbers of a date in the order in which they are mentioned. Some of them are known
to be the year or the month; the others take the parts that their sizes and places leave. -/

inductive DatePart where
  | year | month
deriving DecidableEq, Repr

structure DateNumber where
  value : Nat
  part : Option DatePart
deriving DecidableEq, Repr

structure DateParts where
  year : Option Nat
  month : Option Nat
  day : Option Nat
deriving DecidableEq, Repr

structure DateNumbers where
  numbers : List DateNumber
  /-- Whether a number was written in a way that tells the century. -/
  centuryTold : Bool
deriving DecidableEq, Repr

namespace DateNumbers

def empty : DateNumbers := ⟨[], false⟩

def known? (date : DateNumbers) (part : DatePart) : Option Nat :=
  (date.numbers.find? (·.part = some part)).map (·.value)

/-- Adds a number. Neither the year nor the month is told twice. -/
def add? (date : DateNumbers) (value : Nat) (part : Option DatePart) : Option DateNumbers :=
  if part.any fun part => (date.known? part).isSome then none
  else some { date with numbers := date.numbers ++ [⟨value, part⟩] }

def addMonth? (date : DateNumbers) (month : Nat) : Option DateNumbers :=
  date.add? month (some .month)

def addYear? (date : DateNumbers) (year : Nat) (centuryTold : Bool) : Option DateNumbers :=
  { date with centuryTold := date.centuryTold || centuryTold }.add? year (some .year)

/-- Adds a written number. With more than two digits it is a year. -/
def addToken? (date : DateNumbers) (token : Token) : Option DateNumbers := do
  let value ← token.whole?
  if 2 < token.length then date.addYear? value true else date.add? value none

/-- Adds a number without its fraction. Beyond a hundred it is a year. -/
def addAmount? (date : DateNumbers) (amount : Amount) : Option DateNumbers :=
  if amount.exceeds 100 then date.addYear? amount.whole true else date.add? amount.whole none

def allowsDay (date : DateNumbers) (amount : Amount) : Bool :=
  let last :=
    match date.known? .month, date.known? .year with
    | none, _ => 31
    | some month, none => daysInMonth 2000 month
    | some month, some year => daysInMonth year month
  1 ≤ amount.whole && !amount.exceeds last

def isYearSized (n : Nat) : Bool := 31 < n

/-- The parts of three numbers of which the month is known at most, year, month and day
being sorted out by size. -/
def threeParts (first second third : DateNumber) : DateParts :=
  let (a, b, c) := (first.value, second.value, third.value)
  if first.part = some .month then
    if isYearSized b then ⟨some b, some a, some c⟩ else ⟨some c, some a, some b⟩
  else if second.part = some .month then
    if isYearSized a then ⟨some a, some b, some c⟩ else ⟨some c, some b, some a⟩
  else if third.part = some .month then
    if isYearSized b then ⟨some b, some c, some a⟩ else ⟨some a, some c, some b⟩
  else if isYearSized a || first.part = some .year then ⟨some a, some b, some c⟩
  else if 12 < a then ⟨some c, some b, some a⟩
  else ⟨some c, some a, some b⟩

/-- The parts of two numbers that are not both known. -/
def twoParts (first second : DateNumber) : DateParts :=
  let beside (month other : Nat) : DateParts :=
    if isYearSized other then ⟨some other, some month, none⟩ else ⟨none, some month, some other⟩
  if first.part = some .month then beside first.value second.value
  else if second.part = some .month then beside second.value first.value
  else if isYearSized first.value then ⟨some first.value, some second.value, none⟩
  else if isYearSized second.value then ⟨some second.value, some first.value, none⟩
  else ⟨none, some first.value, some second.value⟩

/-- Which number is which part. More than three numbers are no date. -/
def parts? (date : DateNumbers) : Option DateParts :=
  let year := date.known? .year
  let month := date.known? .month
  match date.numbers with
  | [] => some ⟨none, none, none⟩
  | [only] =>
      if only.part.isSome then some ⟨year, month, none⟩
      else if isYearSized only.value then some ⟨some only.value, none, none⟩
      else some ⟨none, none, some only.value⟩
  | [first, second] =>
      if year.isSome ∧ month.isSome then some ⟨year, month, none⟩
      else some (twoParts first second)
  | [first, second, third] =>
      if year.isSome ∧ month.isSome then
        some ⟨year, month, (date.numbers.find? (·.part = none)).map (·.value)⟩
      else some (threeParts first second third)
  | _ => none

end DateNumbers

/-- The full year. A year of at most two digits lies in this century unless its century was told. -/
def fullYear (year : Nat) (centuryTold : Bool) : Nat :=
  if year < 100 ∧ !centuryTold then 2000 + year else year

end Recurrence.Mention
