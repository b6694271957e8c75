import Recurrence.Text.Blank
import Recurrence.Text.Digit

namespace Recurrence.Text

/-! Whole numbers in words of digits. A run of digits is read only up to a fixed
length, so that reading a number never takes more than a bounded effort. -/

def maxDigits : Nat := 4300

/-- A run of digits that is longer than any number that is read. -/
structure NumeralTooLong where
  digits : Nat
deriving DecidableEq, Repr

def decimal (n : Nat) : List Char :=
  Nat.toDigits 10 n

def signed (n : Int) : List Char :=
  if n < 0 then '-' :: decimal n.natAbs else decimal n.natAbs

/-- At least `width` characters, filled with zeros behind the sign. -/
def padded (width : Nat) (n : Int) : List Char :=
  let sign := if n < 0 then ['-'] else []
  let digits := decimal n.natAbs
  sign ++ List.replicate (width - sign.length - digits.length) '0' ++ digits

def NumeralTooLong.message (fault : NumeralTooLong) : List Char :=
  "Exceeds the limit (".toList ++ decimal maxDigits ++
    " digits) for integer string conversion: value has ".toList ++ decimal fault.digits ++
    " digits; use sys.set_int_max_str_digits() to increase the limit".toList

def digitsValue (digits : List Char) : Nat :=
  digits.foldl (fun value c => 10 * value + (digitValue? c).getD 0) 0

def readDigits (digits : List Char) : Except NumeralTooLong Nat :=
  if digits.length ≤ maxDigits then .ok (digitsValue digits) else .error ⟨digits.length⟩

/-- Whether the text is digits in which single underscores may stand between two of them. -/
def isGrouped : List Char → Bool
  | [] => false
  | [c] => isDigit c
  | c :: '_' :: rest => isDigit c && isGrouped rest
  | c :: rest => isDigit c && isGrouped rest

def readGrouped? (text : List Char) : Option Nat :=
  if isGrouped text then (readDigits (text.filter isDigit)).toOption else none

/-- White space around a number. The separators among the control characters are none. -/
def isMargin (c : Char) : Bool :=
  isBlank c && !(28 ≤ c.toNat && c.toNat ≤ 31)

/-- A numeral with an optional sign and white space around it. -/
def readInteger? (text : List Char) : Option Int :=
  match strip isMargin text with
  | '-' :: body => (readGrouped? body).map fun n : Nat => -(n : Int)
  | '+' :: body => (readGrouped? body).map fun n : Nat => (n : Int)
  | body => (readGrouped? body).map fun n : Nat => (n : Int)

end Recurrence.Text
