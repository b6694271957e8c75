import Mathlib.Data.Nat.Basic
import Mathlib.Data.Nat.Init
import Mathlib.Order.Lattice
import Recurrence.Calendar.Moment

namespace Recurrence

/-! The order of dates and of moments. Dates are ordered by their ordinals and moments by
the microseconds before them; both tell different values apart, and the day after a date
has the next ordinal, so that no day lies between them. -/

def daysInYear (year : Nat) : Nat :=
  if isLeapYear year then 366 else 365

theorem isLeapYear_iff (year : Nat) :
    isLeapYear year = true ↔ year % 4 = 0 ∧ (year % 100 ≠ 0 ∨ year % 400 = 0) := by
  simp [isLeapYear]

namespace Date

theorem daysBeforeYear_succ {year : Nat} (positive : 1 ≤ year) :
    daysBeforeYear (year + 1) = daysBeforeYear year + daysInYear year := by
  obtain ⟨past, rfl⟩ := Nat.exists_eq_add_of_le' positive
  have quads : (past + 1) / 4 = past / 4 + if (past + 1) % 4 = 0 then 1 else 0 := by
    split <;> omega
  have centuries : (past + 1) / 100 = past / 100 + if (past + 1) % 100 = 0 then 1 else 0 := by
    split <;> omega
  have cycles : (past + 1) / 400 = past / 400 + if (past + 1) % 400 = 0 then 1 else 0 := by
    split <;> omega
  have subtractable : past / 100 ≤ past := Nat.div_le_self _ _
  simp only [daysBeforeYear, daysInYear, isLeapYear_iff, Nat.add_sub_cancel, quads, centuries,
    cycles]
  -- A year is leap or not by these three divisions, and each of them counts one more or not.
  by_cases quad : (past + 1) % 4 = 0 <;> by_cases century : (past + 1) % 100 = 0 <;>
    by_cases cycle : (past + 1) % 400 = 0 <;>
    simp only [quad, century, cycle, if_true, if_false, not_true, not_false_iff, true_and,
      false_and, or_true, or_false, ne_eq] <;>
    omega

theorem daysBeforeMonth_succ (year : Nat) {month : Nat} (positive : 1 ≤ month) :
    daysBeforeMonth year (month + 1) = daysBeforeMonth year month + daysInMonth year month := by
  obtain ⟨before, rfl⟩ := Nat.exists_eq_add_of_le' positive
  simp [daysBeforeMonth, List.range_succ]

theorem daysBeforeMonth_end (year : Nat) : daysBeforeMonth year 13 = daysInYear year := by
  unfold daysInYear
  cases leap : isLeapYear year <;> simp [daysBeforeMonth, daysInMonth, leap, List.range_succ]

theorem daysBeforeMonth_mono (year : Nat) {first last : Nat} (positive : 1 ≤ first)
    (ordered : first ≤ last) : daysBeforeMonth year first ≤ daysBeforeMonth year last := by
  induction last, ordered using Nat.le_induction with
  | base => exact Nat.le_refl _
  | succ month reached ih =>
      rw [daysBeforeMonth_succ year (positive.trans reached)]
      omega

theorem daysBeforeYear_mono {first last : Nat} (positive : 1 ≤ first) (ordered : first ≤ last) :
    daysBeforeYear first ≤ daysBeforeYear last := by
  induction last, ordered using Nat.le_induction with
  | base => exact Nat.le_refl _
  | succ year reached ih =>
      rw [daysBeforeYear_succ (positive.trans reached)]
      omega

theorem ordinal_le_endOfMonth (date : Date) :
    date.ordinal ≤ daysBeforeYear date.year + daysBeforeMonth date.year (date.month + 1) := by
  rw [daysBeforeMonth_succ _ date.month_pos]
  have := date.day_le
  unfold ordinal
  omega

theorem ordinal_le_endOfYear (date : Date) : date.ordinal ≤ daysBeforeYear (date.year + 1) := by
  have inMonth := date.ordinal_le_endOfMonth
  have inYear := daysBeforeMonth_mono date.year (Nat.le_add_left 1 date.month)
    (Nat.succ_le_succ date.month_le)
  rw [daysBeforeMonth_end] at inYear
  rw [daysBeforeYear_succ date.year_pos]
  omega

theorem ordinal_lt_of_year_lt {earlier later : Date} (years : earlier.year < later.year) :
    earlier.ordinal < later.ordinal := by
  have upper := earlier.ordinal_le_endOfYear
  have between := daysBeforeYear_mono (Nat.le_add_left 1 earlier.year) years
  have := later.day_pos
  unfold ordinal at *
  omega

theorem ordinal_lt_of_month_lt {earlier later : Date} (years : earlier.year = later.year)
    (months : earlier.month < later.month) : earlier.ordinal < later.ordinal := by
  have upper := earlier.ordinal_le_endOfMonth
  have between := daysBeforeMonth_mono later.year (Nat.le_add_left 1 earlier.month) months
  rw [years] at upper
  have := later.day_pos
  unfold ordinal at *
  omega

theorem ext_parts {first second : Date} (years : first.year = second.year)
    (months : first.month = second.month) (days : first.day = second.day) : first = second := by
  cases first
  cases second
  cases years
  cases months
  cases days
  rfl

theorem year_le_of_ordinal_le {first second : Date} (ordered : first.ordinal ≤ second.ordinal) :
    first.year ≤ second.year := by
  by_contra reversed
  exact absurd (ordinal_lt_of_year_lt (Nat.lt_of_not_le reversed)) (Nat.not_lt.mpr ordered)

theorem ordinal_injective : Function.Injective ordinal := by
  intro first second same
  -- An earlier year, or an earlier month of the same year, would have made the ordinal smaller.
  have years : first.year = second.year :=
    Nat.le_antisymm (year_le_of_ordinal_le same.le) (year_le_of_ordinal_le same.ge)
  have months : first.month = second.month := by
    rcases Nat.lt_trichotomy first.month second.month with earlier | equal | later
    · exact absurd (ordinal_lt_of_month_lt years earlier) (by omega)
    · exact equal
    · exact absurd (ordinal_lt_of_month_lt years.symm later) (by omega)
  refine ext_parts years months ?_
  unfold ordinal at same
  rw [years, months] at same
  omega

theorem of?_eq_some_iff {year month day : Nat} {date : Date} :
    of? year month day = some date ↔
      date.year = year ∧ date.month = month ∧ date.day = day := by
  unfold of?
  constructor
  · intro found
    split at found
    · cases found
      exact ⟨rfl, rfl, rfl⟩
    · cases found
  · intro parts
    obtain ⟨rfl, rfl, rfl⟩ := parts
    rw [dif_pos ⟨⟨date.year_pos, date.year_le⟩, ⟨date.month_pos, date.month_le⟩,
      date.day_pos, date.day_le⟩]

theorem of?_eq_none_iff {year month day : Nat} :
    of? year month day = none ↔
      ¬ ((1 ≤ year ∧ year ≤ lastYear) ∧ (1 ≤ month ∧ month ≤ 12) ∧
        1 ≤ day ∧ day ≤ daysInMonth year month) := by
  unfold of?
  split <;> simp_all

/-- The next day is the next day of the month, the first day of the next month or the
first day of the next year, each only where the one before it does not exist. -/
theorem tomorrow?_ordinal {date next : Date} (follows : date.tomorrow? = some next) :
    next.ordinal = date.ordinal + 1 := by
  have yearPos := date.year_pos
  have yearLe := date.year_le
  have monthPos := date.month_pos
  have monthLe := date.month_le
  have dayLe := date.day_le
  simp only [tomorrow?, Option.orElse_eq_orElse, Option.orElse_eq_or] at follows
  cases sameMonth : of? date.year date.month (date.day + 1) with
  | some day =>
      simp only [sameMonth, Option.some_or, Option.some.injEq] at follows
      subst follows
      obtain ⟨years, months, days⟩ := of?_eq_some_iff.mp sameMonth
      unfold ordinal
      rw [years, months, days]
      omega
  | none =>
      have lastDay : date.day = daysInMonth date.year date.month := by
        have := of?_eq_none_iff.mp sameMonth
        omega
      have endOfMonth : date.ordinal =
          daysBeforeYear date.year + daysBeforeMonth date.year (date.month + 1) := by
        rw [daysBeforeMonth_succ _ monthPos]
        unfold ordinal
        omega
      cases sameYear : of? date.year (date.month + 1) 1 with
      | some day =>
          simp only [sameMonth, sameYear, Option.none_or, Option.some_or,
            Option.some.injEq] at follows
          subst follows
          obtain ⟨years, months, days⟩ := of?_eq_some_iff.mp sameYear
          rw [endOfMonth]
          unfold ordinal
          rw [years, months, days]
      | none =>
          simp only [sameMonth, sameYear, Option.none_or] at follows
          obtain ⟨years, months, days⟩ := of?_eq_some_iff.mp follows
          have lastMonth : date.month = 12 := by
            have := of?_eq_none_iff.mp sameYear
            have := one_le_daysInMonth date.year (date.month + 1)
            omega
          rw [endOfMonth, lastMonth, daysBeforeMonth_end, ← daysBeforeYear_succ yearPos]
          unfold ordinal
          rw [years, months, days]
          simp [daysBeforeMonth]

/-- Only the last day of the calendar has no next day. -/
theorem ordinal_le_of_tomorrow?_eq_none {date : Date} (last : date.tomorrow? = none)
    (other : Date) : other.ordinal ≤ date.ordinal := by
  simp only [tomorrow?, Option.orElse_eq_orElse, Option.orElse_eq_or, Option.or_eq_none_iff,
    of?_eq_none_iff] at last
  obtain ⟨sameMonth, sameYear, nextYear⟩ := last
  have yearPos := date.year_pos
  have yearLe := date.year_le
  have monthPos := date.month_pos
  have monthLe := date.month_le
  have dayLe := date.day_le
  have := one_le_daysInMonth date.year (date.month + 1)
  have := one_le_daysInMonth (date.year + 1) 1
  have finalYear : date.year = lastYear := by omega
  have finalMonth : date.month = 12 := by omega
  have finalDay : date.day = daysInMonth date.year date.month := by omega
  have endOfYear : date.ordinal = daysBeforeYear (date.year + 1) := by
    rw [daysBeforeYear_succ yearPos, ← daysBeforeMonth_end, daysBeforeMonth_succ _ (by omega)]
    unfold ordinal
    rw [finalDay, finalMonth]
    omega
  have within := other.ordinal_le_endOfYear
  have years := daysBeforeYear_mono (Nat.le_add_left 1 other.year)
    (Nat.add_le_add_right (other.year_le.trans finalYear.ge) 1)
  omega

/-- A later day exists, so the next day does, and it is not behind that one. -/
theorem exists_tomorrow? {date later : Date} (ordered : date.ordinal < later.ordinal) :
    ∃ next, date.tomorrow? = some next ∧ next.ordinal ≤ later.ordinal := by
  cases follows : date.tomorrow? with
  | none => exact absurd (ordinal_le_of_tomorrow?_eq_none follows later) (Nat.not_le.mpr ordered)
  | some next =>
      refine ⟨next, rfl, ?_⟩
      rw [tomorrow?_ordinal follows]
      exact ordered

theorem exists_yesterday {earlier date : Date} (ordered : earlier.ordinal < date.ordinal) :
    ∃ yesterday : Date, yesterday.tomorrow? = some date := by
  induction steps : date.ordinal - earlier.ordinal generalizing earlier with
  | zero => omega
  | succ steps ih =>
      obtain ⟨next, follows, reached⟩ := exists_tomorrow? ordered
      have nextDay := tomorrow?_ordinal follows
      rcases Nat.lt_or_eq_of_le reached with further | same
      · exact ih further (by omega)
      · exact ⟨earlier, ordinal_injective same ▸ follows⟩

/-- No day is left out between two dates. -/
theorem exists_ordinal (earlier later : Date) {ordinal : Nat} (reached : earlier.ordinal ≤ ordinal)
    (bound : ordinal ≤ later.ordinal) : ∃ date : Date, date.ordinal = ordinal := by
  induction ordinal, reached using Nat.le_induction with
  | base => exact ⟨earlier, rfl⟩
  | succ ordinal reached ih =>
      obtain ⟨date, rfl⟩ := ih (Nat.le_of_succ_le bound)
      obtain ⟨next, follows, _⟩ := exists_tomorrow? (Nat.lt_of_succ_le bound)
      exact ⟨next, tomorrow?_ordinal follows⟩

theorem year_le_tomorrow (date : Date) : date.year ≤ (date.tomorrow?.getD date).year := by
  cases follows : date.tomorrow? with
  | none => exact Nat.le_refl _
  | some next =>
      apply year_le_of_ordinal_le
      rw [Option.getD_some, tomorrow?_ordinal follows]
      exact Nat.le_succ _

theorem tomorrow_year_le {date later : Date} (earlier : date.ordinal < later.ordinal) :
    (date.tomorrow?.getD date).year ≤ later.year := by
  obtain ⟨next, follows, reached⟩ := exists_tomorrow? earlier
  rw [follows, Option.getD_some]
  exact year_le_of_ordinal_le reached

theorem ordinal_le_lastOfYear {date : Date} {year : Nat} (within : date.year ≤ year) :
    date.ordinal ≤ (lastOfYear year).ordinal := by
  have reached : date.year ≤ (lastOfYear year).year := by
    have := date.year_le
    simp only [lastOfYear]
    omega
  rcases Nat.lt_or_eq_of_le reached with earlier | same
  · exact (ordinal_lt_of_year_lt earlier).le
  · have upper := date.ordinal_le_endOfYear
    rw [daysBeforeYear_succ date.year_pos, ← daysBeforeMonth_end,
      daysBeforeMonth_succ _ (by omega)] at upper
    have december : daysInMonth date.year 12 = 31 := by simp [daysInMonth]
    change _ ≤ daysBeforeYear (lastOfYear year).year +
      daysBeforeMonth (lastOfYear year).year 12 + 31
    rw [← same]
    omega

theorem lastOfYear_ordinal_mono {first second : Nat} (ordered : first ≤ second) :
    (lastOfYear first).ordinal ≤ (lastOfYear second).ordinal := by
  have years : (lastOfYear first).year ≤ (lastOfYear second).year := by
    simp only [lastOfYear]
    omega
  rcases Nat.lt_or_eq_of_le years with earlier | same
  · exact (ordinal_lt_of_year_lt earlier).le
  · exact (congrArg ordinal (ext_parts same rfl rfl)).le

end Date

namespace Moment

theorem of?_eq_some_iff {date : Date} {hour minute second microsecond : Nat} {moment : Moment} :
    of? date hour minute second microsecond = some moment ↔
      moment.date = date ∧ moment.hour = hour ∧ moment.minute = minute ∧
        moment.second = second ∧ moment.microsecond = microsecond := by
  unfold of?
  constructor
  · intro found
    split at found
    · cases found
      exact ⟨rfl, rfl, rfl, rfl, rfl⟩
    · cases found
  · intro parts
    obtain ⟨rfl, rfl, rfl, rfl, rfl⟩ := parts
    rw [dif_pos ⟨moment.hour_lt, moment.minute_lt, moment.second_lt, moment.microsecond_lt⟩]

theorem minuteOfDay_lt (moment : Moment) : moment.minuteOfDay < 1440 := by
  have := moment.hour_lt
  have := moment.minute_lt
  unfold minuteOfDay
  omega

theorem microseconds_eq (moment : Moment) :
    moment.microseconds = (1440 * moment.date.ordinal + moment.minuteOfDay) * 60000000 +
      (moment.second * 1000000 + moment.microsecond) := by
  unfold microseconds minuteOfDay
  omega

theorem microseconds_injective : Function.Injective microseconds := by
  intro first second same
  have secondLt := first.second_lt
  have secondLt' := second.second_lt
  have microsecondLt := first.microsecond_lt
  have microsecondLt' := second.microsecond_lt
  have hourLt := first.hour_lt
  have hourLt' := second.hour_lt
  have minuteLt := first.minute_lt
  have minuteLt' := second.minute_lt
  unfold microseconds at same
  have dates : first.date = second.date := Date.ordinal_injective (by omega)
  have hours : first.hour = second.hour := by omega
  have minutes : first.minute = second.minute := by omega
  have seconds : first.second = second.second := by omega
  have microseconds : first.microsecond = second.microsecond := by omega
  cases first
  cases second
  cases dates
  cases hours
  cases minutes
  cases seconds
  cases microseconds
  rfl

/-- Earlier and later on the clock, to the microsecond. -/
instance : LinearOrder Moment := LinearOrder.lift' microseconds microseconds_injective

theorem lt_iff_microseconds {earlier later : Moment} :
    earlier < later ↔ earlier.microseconds < later.microseconds := Iff.rfl

theorem le_iff_microseconds {earlier later : Moment} :
    earlier ≤ later ↔ earlier.microseconds ≤ later.microseconds := Iff.rfl

def IsWholeMinute (moment : Moment) : Prop :=
  moment.second = 0 ∧ moment.microsecond = 0

instance (moment : Moment) : Decidable moment.IsWholeMinute :=
  inferInstanceAs (Decidable (_ ∧ _))

/-- Behind a moment lie exactly the whole minutes behind the minute that it is in. -/
theorem lt_iff_of_isWholeMinute {start moment : Moment} (whole : moment.IsWholeMinute) :
    start < moment ↔ start.date.ordinal < moment.date.ordinal ∨
      start.date = moment.date ∧ start.minuteOfDay < moment.minuteOfDay := by
  have startLt := start.minuteOfDay_lt
  have momentLt := moment.minuteOfDay_lt
  have secondLt := start.second_lt
  have microsecondLt := start.microsecond_lt
  rw [lt_iff_microseconds, microseconds_eq, microseconds_eq, whole.1, whole.2]
  constructor
  · intro before
    rcases Nat.lt_trichotomy start.date.ordinal moment.date.ordinal with earlier | same | later
    · exact Or.inl earlier
    · exact Or.inr ⟨Date.ordinal_injective same, by omega⟩
    · omega
  · intro ordered
    rcases ordered with earlier | ⟨same, earlier⟩
    · omega
    · rw [same]
      omega

theorem date_lt_or_eq_of_le {first second : Moment} (ordered : first ≤ second) :
    first.date.ordinal < second.date.ordinal ∨
      first.date = second.date ∧ first.minuteOfDay ≤ second.minuteOfDay := by
  have firstLt := first.minuteOfDay_lt
  have secondLt := second.minuteOfDay_lt
  have secondSecondLt := second.second_lt
  have secondMicrosecondLt := second.microsecond_lt
  rw [le_iff_microseconds, microseconds_eq, microseconds_eq] at ordered
  rcases Nat.lt_trichotomy first.date.ordinal second.date.ordinal with earlier | same | later
  · exact Or.inl earlier
  · exact Or.inr ⟨Date.ordinal_injective same, by omega⟩
  · omega

theorem le_iff_of_isWholeMinute {first second : Moment} (whole : first.IsWholeMinute)
    (whole' : second.IsWholeMinute) :
    first ≤ second ↔ first.date.ordinal < second.date.ordinal ∨
      first.date = second.date ∧ first.minuteOfDay ≤ second.minuteOfDay := by
  refine ⟨date_lt_or_eq_of_le, ?_⟩
  have firstLt := first.minuteOfDay_lt
  have secondLt := second.minuteOfDay_lt
  rw [le_iff_microseconds, microseconds_eq, microseconds_eq, whole.1, whole.2, whole'.1, whole'.2]
  intro ordered
  rcases ordered with earlier | ⟨same, earlier⟩
  · omega
  · rw [same]
    omega

theorem atMinute?_eq_some_iff {date : Date} {time : Nat} {moment : Moment} :
    atMinute? date time = some moment ↔
      moment.date = date ∧ moment.minuteOfDay = time ∧ moment.IsWholeMinute := by
  have := moment.minute_lt
  unfold atMinute? minuteOfDay IsWholeMinute
  rw [of?_eq_some_iff]
  constructor
  · intro found
    obtain ⟨dates, hours, minutes, seconds⟩ := found
    exact ⟨dates, by omega, seconds⟩
  · intro found
    obtain ⟨dates, times, seconds⟩ := found
    exact ⟨dates, by omega, by omega, seconds⟩

theorem exists_atMinute? (date : Date) {time : Nat} (bound : time < 1440) :
    ∃ moment, atMinute? date time = some moment := by
  unfold atMinute? of?
  rw [dif_pos ⟨by omega, by omega, by omega, by omega⟩]
  exact ⟨_, rfl⟩

/-- No minute is left out between two moments. -/
theorem exists_wholeMinute (earlier later : Moment) {minutes : Nat}
    (reached : 1440 * earlier.date.ordinal + earlier.minuteOfDay ≤ minutes)
    (bound : minutes ≤ 1440 * later.date.ordinal + later.minuteOfDay) :
    ∃ moment : Moment, moment.IsWholeMinute ∧ moment.microseconds = minutes * 60000000 := by
  have earlierLt := earlier.minuteOfDay_lt
  have laterLt := later.minuteOfDay_lt
  obtain ⟨date, ordinal⟩ : ∃ date : Date, date.ordinal = minutes / 1440 :=
    Date.exists_ordinal earlier.date later.date (by omega) (by omega)
  obtain ⟨moment, found⟩ := exists_atMinute? date (Nat.mod_lt minutes (by decide : 0 < 1440))
  obtain ⟨rfl, time, whole⟩ := atMinute?_eq_some_iff.mp found
  refine ⟨moment, whole, ?_⟩
  rw [microseconds_eq, ordinal, time, whole.1, whole.2]
  omega

/-- Some moment is in the minute before a whole minute, unless that is the first of the calendar. -/
theorem exists_minuteBefore {start moment : Moment} (whole : moment.IsWholeMinute)
    (behind : start < moment) :
    ∃ before : Moment, before < moment ∧
      (∀ other : Moment, other.IsWholeMinute → before < other → moment ≤ other) ∧
      (before.date = moment.date ∨
        before.minuteOfDay = 1439 ∧ before.date.tomorrow? = some moment.date) := by
  by_cases midnight : moment.minuteOfDay = 0
  · have earlier : start.date.ordinal < moment.date.ordinal := by
      rcases (lt_iff_of_isWholeMinute whole).mp behind with earlier | ⟨_, time⟩
      · exact earlier
      · omega
    obtain ⟨yesterday, follows⟩ := Date.exists_yesterday earlier
    have nextDay := Date.tomorrow?_ordinal follows
    obtain ⟨before, found⟩ := exists_atMinute? yesterday (by decide : 1439 < 1440)
    obtain ⟨rfl, time, _⟩ := atMinute?_eq_some_iff.mp found
    refine ⟨before, (lt_iff_of_isWholeMinute whole).mpr (Or.inl (by omega)),
      fun other wholeOther later => ?_, Or.inr ⟨time, follows⟩⟩
    have otherLt := other.minuteOfDay_lt
    rw [le_iff_of_isWholeMinute whole wholeOther]
    rcases (lt_iff_of_isWholeMinute wholeOther).mp later with laterDay | ⟨_, laterTime⟩
    · rcases Nat.lt_or_eq_of_le (Nat.succ_le_of_lt laterDay) with further | same
      · exact Or.inl (by omega)
      · exact Or.inr ⟨Date.ordinal_injective (by omega), by omega⟩
    · omega
  · have bound : moment.minuteOfDay - 1 < 1440 := by
      have momentLt := moment.minuteOfDay_lt
      omega
    obtain ⟨before, found⟩ := exists_atMinute? moment.date bound
    obtain ⟨dates, time, _⟩ := atMinute?_eq_some_iff.mp found
    refine ⟨before, (lt_iff_of_isWholeMinute whole).mpr (Or.inr ⟨dates, by omega⟩),
      fun other wholeOther later => ?_, Or.inl dates⟩
    rw [le_iff_of_isWholeMinute whole wholeOther, ← dates]
    rcases (lt_iff_of_isWholeMinute wholeOther).mp later with laterDay | ⟨same, laterTime⟩
    · exact Or.inl laterDay
    · exact Or.inr ⟨same, by omega⟩

end Moment

end Recurrence
