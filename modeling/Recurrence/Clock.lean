import Recurrence.Text.Numeral

namespace Recurrence

/-! Times of day as phrases give them, and the words in which they are confirmed.
Nothing here assumes that the numbers lie in their ranges. -/

structure Clock where
  hour : Int
  minute : Int
deriving DecidableEq, Repr

namespace Clock

def midnight : Clock := ⟨0, 0⟩

def noon : Clock := ⟨12, 0⟩

def label (clock : Clock) : List Char :=
  if clock = midnight then "midnight".toList
  else if clock = noon then "noon".toList
  else
    let face := if clock.hour % 12 = 0 then 12 else clock.hour % 12
    Text.signed face ++ ':' :: Text.padded 2 clock.minute ++
      (if clock.hour < 12 then " AM" else " PM").toList

end Clock

def ordinalSuffix (n : Int) : String :=
  if 10 ≤ n % 100 ∧ n % 100 ≤ 20 then "th"
  else if n % 10 = 1 then "st"
  else if n % 10 = 2 then "nd"
  else if n % 10 = 3 then "rd"
  else "th"

def ordinalLabel (n : Int) : List Char :=
  Text.signed n ++ (ordinalSuffix n).toList

end Recurrence
