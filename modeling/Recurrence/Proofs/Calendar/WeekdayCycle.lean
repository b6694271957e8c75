import Recurrence.Proofs.Calendar.Order

namespace Recurrence

/-! The weekdays of the calendar. They are the ones that counting leads to: from the Monday on which
the calendar begins, each day has the weekday behind that of the day before, over the ends of months,
over leap days and over the years of a century that have none. -/

namespace Weekday

def next : Weekday → Weekday
  | .sunday => .monday
  | .monday => .tuesday
  | .tuesday => .wednesday
  | .wednesday => .thursday
  | .thursday => .friday
  | .friday => .saturday
  | .saturday => .sunday

theorem afterSunday_mod (n : Nat) : afterSunday (n % 7) = afterSunday n := by
  rw [afterSunday, Nat.mod_mod, afterSunday]

theorem afterSunday_succ (n : Nat) : afterSunday (n + 1) = (afterSunday n).next := by
  have cycle : ∀ place < 7, afterSunday (place + 1) = (afterSunday place).next := by decide
  calc afterSunday (n + 1)
      = afterSunday (n % 7 + 1) := by
        rw [← afterSunday_mod, ← afterSunday_mod (n % 7 + 1), Nat.mod_add_mod]
    _ = (afterSunday (n % 7)).next := cycle _ (Nat.mod_lt n (by decide))
    _ = (afterSunday n).next := by rw [afterSunday_mod]

end Weekday

namespace Date

variable {date following : Date} {day : Weekday}

/-- The day on which the calendar begins. -/
def first : Date :=
  (of? 1 1 1).get (by decide)

/-- Weekdays by counting. -/
inductive FallsOn : Date → Weekday → Prop where
  | first : FallsOn first .monday
  | next {date following : Date} {day : Weekday} (today : FallsOn date day)
      (follows : date.tomorrow? = some following) : FallsOn following day.next

theorem weekday_tomorrow (follows : date.tomorrow? = some following) :
    following.weekday = date.weekday.next := by
  rw [weekday, tomorrow?_ordinal follows, Weekday.afterSunday_succ, weekday]

theorem ordinal_pos (date : Date) : 1 ≤ date.ordinal := by
  have := date.day_pos
  unfold ordinal
  omega

theorem eq_first_or_exists_yesterday (date : Date) :
    date = first ∨ ∃ yesterday : Date, yesterday.tomorrow? = some date := by
  have begins : first.ordinal = 1 := by decide
  rcases Nat.lt_or_eq_of_le date.ordinal_pos with later | same
  · have ordered : first.ordinal < date.ordinal := begins ▸ later
    exact Or.inr (exists_yesterday ordered)
  · exact Or.inl (ordinal_injective (same.symm.trans begins.symm))

/-- Counting reaches every date. -/
theorem fallsOn_weekday (date : Date) : date.FallsOn date.weekday := by
  induction count : date.ordinal generalizing date with
  | zero =>
      have := date.ordinal_pos
      omega
  | succ days ih =>
      rcases date.eq_first_or_exists_yesterday with rfl | ⟨yesterday, follows⟩
      · exact .first
      · rw [weekday_tomorrow follows]
        exact .next (ih yesterday (by rw [tomorrow?_ordinal follows] at count; omega)) follows

theorem fallsOn_iff : date.FallsOn day ↔ date.weekday = day := by
  constructor
  · intro counted
    induction counted with
    | first => decide
    | next today follows ih => rw [weekday_tomorrow follows, ih]
  · rintro rfl
    exact date.fallsOn_weekday

end Date

end Recurrence
