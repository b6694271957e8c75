import Recurrence.Text.Blank
import Recurrence.Text.Digit
import Recurrence.Text.LowerCase
import Recurrence.Text.Segment

namespace Recurrence.Phrase

/-! The canonical form of a phrase: lower case, single spaces, no filler words, and the
half of the day set apart from the hour. Taking a filler out can bring a new one together,
so the pass is repeated until nothing changes. -/

/-- Sets `am` and `pm` apart from a digit directly before them. -/
def separateMeridiem : List Char → List Char
  | d :: half :: 'm' :: rest =>
      if Text.isDigit d && (half == 'a' || half == 'p') then
        d :: ' ' :: half :: 'm' :: separateMeridiem rest
      else d :: separateMeridiem (half :: 'm' :: rest)
  | c :: rest => c :: separateMeridiem rest
  | [] => []

def dropFillers (text : List Char) : List Char :=
  Text.replaceAll "each and every" "every"
    (Text.replaceAll "every single" "every" (Text.replaceAll "o'clock" "" text))

def pass (text : List Char) : List Char :=
  Text.unwords (Text.words (separateMeridiem (dropFillers (Text.lower text))))

/-- Repeats a step until it changes nothing, at most `limit` times. -/
def settle (step : List Char → List Char) : Nat → List Char → List Char
  | 0, text => text
  | limit + 1, text => if step text = text then text else settle step limit (step text)

/-- Every pass but the first and the last removes a filler, so that a text has more
characters than passes are needed. -/
def canonical (text : List Char) : List Char :=
  let first := pass text
  settle pass (first.length + 1) first

end Recurrence.Phrase
