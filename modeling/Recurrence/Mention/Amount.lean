import Recurrence.Mention.Token
import Recurrence.Text.Numeral
import Recurrence.Text.Segment

namespace Recurrence.Mention

/-! Decimal numbers as tokens. The fraction of a number is rounded to a fixed count of
significant digits, half to even, and so is its product with sixty; a number with more
digits than that before its point is not split at all. -/

def precision : Nat := 28

/-- `numerator / 10 ^ places`. -/
structure Fraction where
  numerator : Nat
  places : Nat
deriving DecidableEq, Repr

/-- A quotient rounded to the nearest whole number, half to even. -/
def nearestQuotient (n divisor : Nat) : Nat :=
  let quotient := n / divisor
  let rest := 2 * (n % divisor)
  if rest < divisor ∨ rest = divisor ∧ quotient % 2 = 0 then quotient else quotient + 1

namespace Fraction

/-- Keeps the leading digits that arithmetic keeps. -/
def rounded (fraction : Fraction) : Fraction :=
  let excess := (Text.decimal fraction.numerator).length - precision
  if excess = 0 then fraction
  else ⟨nearestQuotient fraction.numerator (Nat.pow 10 excess), fraction.places - excess⟩

def sixtieths (fraction : Fraction) : Nat :=
  let product := Fraction.rounded ⟨60 * fraction.numerator, fraction.places⟩
  product.numerator / Nat.pow 10 product.places

end Fraction

structure Amount where
  whole : Nat
  fraction : Fraction
deriving DecidableEq, Repr

/-- The digits before the point of a number are too many for its fraction to be split off. -/
structure Unsplittable where
  wholeDigits : Nat
deriving DecidableEq, Repr

def Unsplittable.message (_ : Unsplittable) : List Char :=
  "[<class 'decimal.DivisionImpossible'>]".toList

namespace Amount

def exceeds (amount : Amount) (bound : Nat) : Bool :=
  bound < amount.whole || bound == amount.whole && 0 < amount.fraction.numerator

def fraction? (amount : Amount) : Except Unsplittable (Option Fraction) :=
  let digits := (Text.decimal amount.whole).length
  if precision < digits then .error ⟨digits⟩
  else if amount.fraction.numerator = 0 then .ok none
  else .ok (some amount.fraction.rounded)

end Amount

namespace Token

/-- The value of a token of digits alone, unless it is too long to be read. -/
def whole? (token : Token) : Option Nat :=
  if token ≠ [] ∧ token.all Text.isDigit then (Text.readDigits token).toOption else none

def decimalParts? (token : Token) : Option (List Char × List Char) :=
  let parts := (Text.splitFirst? '.' token).getD (token, ['0'])
  if parts.1 ≠ [] ∧ parts.2 ≠ [] ∧ parts.1.all Text.isDigit ∧ parts.2.all Text.isDigit then
    some parts
  else none

def amount? (token : Token) : Option Amount :=
  token.decimalParts?.map fun (whole, fraction) =>
    ⟨Text.digitsValue whole, Text.digitsValue fraction, fraction.length⟩

/-- Words that name no finite number, although they stand for numbers. -/
def isBoundlessNumber (token : Token) : Bool :=
  ["nan", "inf", "infinity"].any (·.toList == token.map Char.toLower)

end Token

end Recurrence.Mention
