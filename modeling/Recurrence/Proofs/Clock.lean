import Recurrence.Clock

namespace Recurrence.Clock

/-! Times of day whose numbers lie in their ranges. -/

/-- A time of day as clocks show it. -/
def InRange (clock : Clock) : Prop :=
  (0 ≤ clock.hour ∧ clock.hour ≤ 23) ∧ 0 ≤ clock.minute ∧ clock.minute ≤ 59

instance : DecidablePred InRange :=
  fun _ => inferInstanceAs (Decidable (_ ∧ _))

end Recurrence.Clock
