import Recurrence.Text.Numeral
import Recurrence.Text.Segment

namespace Recurrence.Console

/-! Whole numbers as values of options. They are written in plain digits, perhaps with white
space around them, a sign, single underscores inside, or a point with nothing but zeros
behind it. Zeros in front are allowed unless a minus stands before them. Such a text is
stripped of all that does not count until the plain form of a number remains. -/

/-- Takes a plus sign away. No other sign may follow it. -/
def dropPlus? : List Char → Option (List Char)
  | '+' :: '-' :: _ => none
  | '+' :: rest => some rest
  | text => some text

/-- What remains behind zeros and the underscores between them. The `last` of them is kept
where no other digit stands before the end or the point. -/
def dropZerosBehind? (last : Char) : List Char → Option (List Char)
  | [] => some [last]
  | c :: rest =>
      if c == '0' || c == '_' then dropZerosBehind? c rest
      else if Text.isPlainDigit c then some (c :: rest)
      else if c == '.' then some (last :: c :: rest)
      else none

/-- Takes zeros in front away, and refuses what begins with neither a digit nor a minus. -/
def dropLeadingZeros? : List Char → Option (List Char)
  | [] => none
  | c :: rest =>
      if c == '0' then dropZerosBehind? c rest
      else if c == '-' || Text.isPlainDigit c then some (c :: rest)
      else none

def dropZeroFraction (text : List Char) : List Char :=
  match Text.splitFirst? '.' text with
  | some (whole, fraction) => if fraction.all (· == '0') then whole else text
  | none => text

/-- Takes underscores away if each of them stands alone and none at either end. -/
def dropUnderscores (text : List Char) : List Char :=
  if text.head? = some '_' ∨ text.getLast? = some '_' ∨ Text.hasPiece ['_', '_'] text then text
  else text.filter (· ≠ '_')

/-- Plain digits without a zero in front, perhaps behind a minus, and not too many of them. -/
def readPlainNumber? (text : List Char) : Option Int :=
  let (negative, digits) := match text with
    | '-' :: digits => (true, digits)
    | digits => (false, digits)
  if digits ≠ [] ∧ digits.all Text.isPlainDigit ∧ (digits.head? ≠ some '0' ∨ digits = ['0']) ∧
      text.length ≤ Text.maxDigits then
    some (if negative then -(Text.digitsValue digits : Int) else Text.digitsValue digits)
  else none

def readNumber? (text : List Char) : Option Int := do
  let unsigned ← dropPlus? (Text.strip Text.isMargin text)
  let significant ← dropLeadingZeros? unsigned
  readPlainNumber? (dropUnderscores (dropZeroFraction significant))

end Recurrence.Console
