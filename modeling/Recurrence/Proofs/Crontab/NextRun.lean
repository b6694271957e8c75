import Mathlib.Order.WellFounded
import Recurrence.Crontab.Projection
import Recurrence.Proofs.Crontab.Timetable

namespace Recurrence.Crontab

/-! The next run of a timetable: the search finds the earliest moment behind its start that
the timetable names, if that lies in the years it looks at. All that is known about the
search elsewhere follows from this. -/

theorem searchEnd_mono {start later : Moment} (ordered : start ≤ later) :
    (searchEnd start).ordinal ≤ (searchEnd later).ordinal := by
  apply Date.lastOfYear_ordinal_mono
  apply Nat.add_le_add_right
  rcases Moment.date_lt_or_eq_of_le ordered with earlier | ⟨sameDay, minutes⟩
  · have years := Date.year_le_of_ordinal_le earlier.le
    have fromTomorrow := Date.tomorrow_year_le earlier
    have laterTomorrow := later.date.year_le_tomorrow
    split <;> split <;> omega
  · -- In the last minute of a day the year of the next day counts, so a day never counts less.
    rw [sameDay]
    have laterLt := later.minuteOfDay_lt
    have laterTomorrow := later.date.year_le_tomorrow
    split <;> split <;> omega

theorem ordinal_le_searchEnd_of_year {start : Moment} {date : Date}
    (near : date.year ≤ start.date.year + searchYears) :
    date.ordinal ≤ (searchEnd start).ordinal := by
  apply Date.ordinal_le_lastOfYear
  split
  · exact near.trans (Nat.add_le_add_right start.date.year_le_tomorrow _)
  · exact near

theorem ordinal_le_searchEnd (start : Moment) : start.date.ordinal ≤ (searchEnd start).ordinal :=
  ordinal_le_searchEnd_of_year (Nat.le_add_right _ _)

/-- The first of some ascending numbers behind a bound is the least of them. -/
theorem find?_ascending {values : List Nat} (ascending : values.Pairwise (· < ·))
    {bound found : Nat} :
    values.find? (fun value => decide (bound < value)) = some found ↔
      found ∈ values ∧ bound < found ∧ ∀ other ∈ values, bound < other → found ≤ other := by
  induction values with
  | nil => simp
  | cons value others ih =>
      obtain ⟨least, ascendingOthers⟩ := List.pairwise_cons.mp ascending
      by_cases behind : bound < value
      · rw [List.find?_cons_of_pos (by simpa using behind)]
        constructor
        · intro same
          cases same
          refine ⟨List.mem_cons_self, behind, fun other member _ => ?_⟩
          rcases List.mem_cons.mp member with rfl | further
          · exact Nat.le_refl _
          · exact (least other further).le
        · intro first
          obtain ⟨member, _, below⟩ := first
          have reached := below value List.mem_cons_self behind
          rcases List.mem_cons.mp member with rfl | further
          · rfl
          · exact absurd (least found further) (Nat.not_lt.mpr reached)
      · rw [List.find?_cons_of_neg (by simpa using behind), ih ascendingOthers]
        constructor
        · intro first
          obtain ⟨member, later, below⟩ := first
          refine ⟨List.mem_cons_of_mem _ member, later, fun other memberOther laterOther => ?_⟩
          rcases List.mem_cons.mp memberOther with rfl | further
          · exact absurd laterOther behind
          · exact below other further laterOther
        · intro first
          obtain ⟨member, later, below⟩ := first
          rcases List.mem_cons.mp member with rfl | further
          · exact absurd later behind
          · exact ⟨further, later,
              fun other memberOther => below other (List.mem_cons_of_mem _ memberOther)⟩

theorem head?_ascending {values : List Nat} (ascending : values.Pairwise (· < ·)) {found : Nat} :
    values.head? = some found ↔ found ∈ values ∧ ∀ other ∈ values, found ≤ other := by
  cases values with
  | nil => simp
  | cons value others =>
      have least := (List.pairwise_cons.mp ascending).1
      rw [List.head?_cons, Option.some.injEq]
      constructor
      · intro same
        subst same
        refine ⟨List.mem_cons_self, fun other member => ?_⟩
        rcases List.mem_cons.mp member with rfl | further
        · exact Nat.le_refl _
        · exact (least other further).le
      · intro first
        obtain ⟨member, below⟩ := first
        rcases List.mem_cons.mp member with rfl | further
        · rfl
        · exact absurd (least found further) (Nat.not_lt.mpr (below value List.mem_cons_self))

namespace Timetable

variable {table : Timetable} {start later run : Moment}

theorem firstDay?_eq_some_iff {count : Nat} {date found : Date} :
    table.firstDay? count date = some found ↔
      table.runsOn found = true ∧ date.ordinal ≤ found.ordinal ∧
        found.ordinal < date.ordinal + count ∧
        ∀ other, table.runsOn other = true → date.ordinal ≤ other.ordinal →
          found.ordinal ≤ other.ordinal := by
  induction count generalizing date with
  | zero =>
      simp only [firstDay?]
      constructor
      · intro found
        cases found
      · intro found
        obtain ⟨_, reached, bound, _⟩ := found
        omega
  | succ count ih =>
      unfold firstDay?
      by_cases runs : table.runsOn date = true
      · rw [if_pos runs]
        constructor
        · intro same
          cases same
          exact ⟨runs, Nat.le_refl _, by omega, fun other _ reached => reached⟩
        · intro found
          obtain ⟨_, reached, _, least⟩ := found
          exact congrArg some (Date.ordinal_injective
            (Nat.le_antisymm reached (least date runs (Nat.le_refl _))))
      · rw [if_neg runs]
        -- A day with runs that the search may still reach is not this one, so it comes later.
        have passed (other : Date) (runsOther : table.runsOn other = true)
            (reached : date.ordinal ≤ other.ordinal) : date.ordinal < other.ordinal := by
          refine Nat.lt_of_le_of_ne reached fun same => runs ?_
          rw [Date.ordinal_injective same]
          exact runsOther
        cases follows : date.tomorrow? with
        | none =>
            constructor
            · intro found
              cases found
            · intro found
              obtain ⟨runsFound, reached, _, _⟩ := found
              obtain ⟨next, found, _⟩ := Date.exists_tomorrow? (passed found runsFound reached)
              rw [follows] at found
              cases found
        | some next =>
            have nextOrdinal := Date.tomorrow?_ordinal follows
            simp only [ih, nextOrdinal]
            constructor
            · intro found
              obtain ⟨runsFound, reached, bound, least⟩ := found
              exact ⟨runsFound, by omega, by omega,
                fun other runsOther fromDate => least other runsOther (passed other runsOther fromDate)⟩
            · intro found
              obtain ⟨runsFound, reached, bound, least⟩ := found
              exact ⟨runsFound, passed found runsFound reached, by omega,
                fun other runsOther fromNext => least other runsOther (by omega)⟩

/-- Later on the day of the start comes the earliest of the times left. -/
theorem laterToday?_eq_some_iff (ordered : table.Ordered) :
    table.laterToday? start = some run ↔
      table.RunsAt run ∧ run.date = start.date ∧ start.minuteOfDay < run.minuteOfDay ∧
        ∀ time ∈ table.times, start.minuteOfDay < time → run.minuteOfDay ≤ time := by
  unfold laterToday?
  by_cases runs : table.runsOn start.date = true
  · simp only [if_pos runs, Option.bind_eq_some_iff, Moment.atMinute?_eq_some_iff,
      find?_ascending ordered.ascending]
    constructor
    · intro found
      obtain ⟨time, ⟨member, later, least⟩, dates, rfl, whole⟩ := found
      exact ⟨⟨whole, dates ▸ runs, member⟩, dates, later, least⟩
    · intro found
      obtain ⟨runsAt, dates, later, least⟩ := found
      exact ⟨run.minuteOfDay, ⟨runsAt.time, later, least⟩, dates, rfl, runsAt.whole⟩
  · rw [if_neg runs]
    constructor
    · intro found
      cases found
    · intro found
      obtain ⟨runsAt, dates, _, _⟩ := found
      exact absurd (dates ▸ runsAt.day) runs

theorem laterToday?_eq_none (ordered : table.Ordered) (none : table.laterToday? start = none)
    (runsAt : table.RunsAt run) (dates : run.date = start.date) :
    ¬ start.minuteOfDay < run.minuteOfDay := by
  intro later
  have runs : table.runsOn start.date = true := dates ▸ runsAt.day
  have found : (table.times.find? (start.minuteOfDay < ·)).isSome := by
    rw [List.find?_isSome]
    exact ⟨run.minuteOfDay, runsAt.time, decide_eq_true later⟩
  obtain ⟨time, first⟩ := Option.isSome_iff_exists.mp found
  have bound := ordered.withinDay time (List.mem_of_find?_eq_some first)
  obtain ⟨moment, reached⟩ := Moment.exists_atMinute? start.date bound
  rw [laterToday?, if_pos runs, first, Option.bind_some, reached] at none
  cases none

theorem laterDay?_eq_some_iff (ordered : table.Ordered) :
    table.laterDay? start = some run ↔
      table.RunsAt run ∧ start.date.ordinal < run.date.ordinal ∧
        run.date.ordinal ≤ (searchEnd start).ordinal ∧
        (∀ date, table.runsOn date = true → start.date.ordinal < date.ordinal →
          run.date.ordinal ≤ date.ordinal) ∧
        ∀ time ∈ table.times, run.minuteOfDay ≤ time := by
  unfold laterDay?
  simp only [bind, Option.bind_eq_some_iff, firstDay?_eq_some_iff, head?_ascending ordered.ascending,
    Moment.atMinute?_eq_some_iff]
  constructor
  · intro found
    obtain ⟨tomorrow, follows, day, ⟨runs, reached, bound, leastDay⟩, time, ⟨member, leastTime⟩,
      rfl, rfl, whole⟩ := found
    have next := Date.tomorrow?_ordinal follows
    exact ⟨⟨whole, runs, member⟩, by omega, by omega,
      fun date runsOn later => leastDay date runsOn (by omega), leastTime⟩
  · intro found
    obtain ⟨runsAt, later, bound, leastDay, leastTime⟩ := found
    obtain ⟨tomorrow, follows, reached⟩ := Date.exists_tomorrow? later
    have next := Date.tomorrow?_ordinal follows
    exact ⟨tomorrow, follows, run.date,
      ⟨runsAt.day, reached, by omega, fun date runsOn from_ => leastDay date runsOn (by omega)⟩,
      run.minuteOfDay, ⟨runsAt.time, leastTime⟩, rfl, rfl, runsAt.whole⟩

theorem exists_runsAt (ordered : table.Ordered) {date : Date} (runs : table.runsOn date = true)
    {time : Nat} (member : time ∈ table.times) :
    ∃ moment, table.RunsAt moment ∧ moment.date = date ∧ moment.minuteOfDay = time := by
  obtain ⟨moment, reached⟩ := Moment.exists_atMinute? date (ordered.withinDay time member)
  obtain ⟨rfl, rfl, whole⟩ := Moment.atMinute?_eq_some_iff.mp reached
  exact ⟨moment, ⟨whole, runs, member⟩, rfl, rfl⟩

theorem next?_sound (ordered : table.Ordered) (found : table.next? start = some run) :
    table.RunsAt run ∧ start < run ∧
      (∀ other, table.RunsAt other → start < other → run ≤ other) ∧
      run.date.ordinal ≤ (searchEnd start).ordinal := by
  simp only [next?, Option.orElse_eq_orElse, Option.orElse_eq_or] at found
  cases today : table.laterToday? start with
  | some moment =>
      simp only [today, Option.some_or, Option.some.injEq] at found
      subst found
      obtain ⟨runsAt, dates, later, least⟩ := (laterToday?_eq_some_iff ordered).mp today
      refine ⟨runsAt, (Moment.lt_iff_of_isWholeMinute runsAt.whole).mpr (Or.inr ⟨dates.symm, later⟩),
        fun other runsOther behind => ?_, dates ▸ ordinal_le_searchEnd start⟩
      rw [Moment.le_iff_of_isWholeMinute runsAt.whole runsOther.whole, dates]
      rcases (Moment.lt_iff_of_isWholeMinute runsOther.whole).mp behind with laterDay | ⟨same, time⟩
      · exact Or.inl laterDay
      · exact Or.inr ⟨same, least _ runsOther.time time⟩
  | none =>
      simp only [today, Option.none_or] at found
      obtain ⟨runsAt, later, bound, leastDay, leastTime⟩ := (laterDay?_eq_some_iff ordered).mp found
      refine ⟨runsAt, (Moment.lt_iff_of_isWholeMinute runsAt.whole).mpr (Or.inl later),
        fun other runsOther behind => ?_, bound⟩
      rw [Moment.le_iff_of_isWholeMinute runsAt.whole runsOther.whole]
      rcases (Moment.lt_iff_of_isWholeMinute runsOther.whole).mp behind with laterDay | ⟨same, time⟩
      · rcases Nat.lt_or_eq_of_le (leastDay _ runsOther.day laterDay) with earlier | sameDay
        · exact Or.inl earlier
        · exact Or.inr ⟨Date.ordinal_injective sameDay, leastTime _ runsOther.time⟩
      · exact absurd time (laterToday?_eq_none ordered today runsOther same.symm)

/-- The next run is the earliest moment behind the start that the timetable names, unless
it lies behind the last day that the search looks at. -/
theorem next?_eq_some_iff (ordered : table.Ordered) :
    table.next? start = some run ↔
      table.RunsAt run ∧ start < run ∧
        (∀ other, table.RunsAt other → start < other → run ≤ other) ∧
        run.date.ordinal ≤ (searchEnd start).ordinal := by
  refine ⟨next?_sound ordered, ?_⟩
  intro earliest
  obtain ⟨runsAt, behind, least, bound⟩ := earliest
  -- What the search finds is least as well; that it finds anything is shown day by day.
  cases today : table.laterToday? start with
  | some moment =>
      have found : table.next? start = some moment := by
        simp only [next?, Option.orElse_eq_orElse, Option.orElse_eq_or, today, Option.some_or]
      obtain ⟨runsMoment, behindMoment, leastMoment, _⟩ := next?_sound ordered found
      rw [found, le_antisymm (leastMoment run runsAt behind) (least moment runsMoment behindMoment)]
  | none =>
      simp only [next?, Option.orElse_eq_orElse, Option.orElse_eq_or, today, Option.none_or]
      have later : start.date.ordinal < run.date.ordinal := by
        rcases (Moment.lt_iff_of_isWholeMinute runsAt.whole).mp behind with laterDay | ⟨same, time⟩
        · exact laterDay
        · exact absurd time (laterToday?_eq_none ordered today runsAt same.symm)
      refine (laterDay?_eq_some_iff ordered).mpr
        ⟨runsAt, later, bound, fun date runs laterDate => ?_, fun time member => ?_⟩
      · obtain ⟨moment, runsMoment, rfl, _⟩ := exists_runsAt ordered runs runsAt.time
        have reached := least moment runsMoment
          ((Moment.lt_iff_of_isWholeMinute runsMoment.whole).mpr (Or.inl laterDate))
        rcases (Moment.le_iff_of_isWholeMinute runsAt.whole runsMoment.whole).mp reached with
          earlier | ⟨same, _⟩
        · exact earlier.le
        · exact (congrArg Date.ordinal same).le
      · obtain ⟨moment, runsMoment, dates, rfl⟩ := exists_runsAt ordered runsAt.day member
        have reached := least moment runsMoment
          ((Moment.lt_iff_of_isWholeMinute runsMoment.whole).mpr (Or.inl (dates.symm ▸ later)))
        rcases (Moment.le_iff_of_isWholeMinute runsAt.whole runsMoment.whole).mp reached with
          earlier | ⟨_, ordered⟩
        · exact absurd (congrArg Date.ordinal dates) (Nat.ne_of_gt earlier)
        · exact ordered

/-- A search without an answer has left nothing out in the years that it looks at. -/
theorem searchEnd_lt_of_next?_eq_none (ordered : table.Ordered) (none : table.next? start = none)
    (runsAt : table.RunsAt run) (behind : start < run) :
    (searchEnd start).ordinal < run.date.ordinal := by
  by_contra within
  -- The earliest moment that is named behind the start would lie within the search as well.
  obtain ⟨least, ⟨runsLeast, behindLeast⟩, minimal⟩ := (measure Moment.microseconds).wf.has_min
    {moment | table.RunsAt moment ∧ start < moment} ⟨run, runsAt, behind⟩
  have below (other : Moment) (runsOther : table.RunsAt other) (behindOther : start < other) :
      least ≤ other := not_lt.mp (minimal other ⟨runsOther, behindOther⟩)
  have bound : least.date.ordinal ≤ run.date.ordinal := by
    rcases (Moment.le_iff_of_isWholeMinute runsLeast.whole runsAt.whole).mp (below run runsAt behind)
      with earlier | ⟨same, _⟩
    · exact earlier.le
    · exact (congrArg Date.ordinal same).le
  have found := (next?_eq_some_iff ordered).mpr
    ⟨runsLeast, behindLeast, below, bound.trans (not_lt.mp within)⟩
  rw [none] at found
  cases found

/-- Every moment that timetables name is the next run from the minute before it. -/
theorem exists_next?_eq (whole : run.IsWholeMinute) (behind : start < run) :
    ∃ before : Moment, ∀ table : Timetable, table.Ordered → table.RunsAt run →
      table.next? before = some run := by
  obtain ⟨before, earlier, nothingBetween, close⟩ := Moment.exists_minuteBefore whole behind
  refine ⟨before, fun table ordered runsAt => (next?_eq_some_iff ordered).mpr
    ⟨runsAt, earlier, fun other runsOther => nothingBetween other runsOther.whole, ?_⟩⟩
  rcases close with dates | ⟨lastMinute, follows⟩
  · exact dates ▸ ordinal_le_searchEnd before
  · apply Date.ordinal_le_lastOfYear
    rw [if_pos lastMinute, follows, Option.getD_some]
    exact Nat.le_add_right _ _

theorem next?_eq_some_of_same {other : Timetable} (ordered : table.Ordered)
    (otherOrdered : other.Ordered)
    (same : ∀ moment, start < moment → (table.RunsAt moment ↔ other.RunsAt moment))
    (found : table.next? start = some run) : other.next? start = some run := by
  obtain ⟨runsAt, behind, least, bound⟩ := (next?_eq_some_iff ordered).mp found
  exact (next?_eq_some_iff otherOrdered).mpr ⟨(same run behind).mp runsAt, behind,
    fun moment runsOther later => least moment ((same moment later).mpr runsOther) later, bound⟩

/-- A run stays the next one from every moment between the start of its search and itself. -/
theorem next?_of_between (ordered : table.Ordered) (found : table.next? start = some run)
    (reached : start ≤ later) (before : later < run) : table.next? later = some run := by
  obtain ⟨runsAt, _, least, bound⟩ := (next?_eq_some_iff ordered).mp found
  exact (next?_eq_some_iff ordered).mpr ⟨runsAt, before,
    fun other runsOther behind => least other runsOther (lt_of_le_of_lt reached behind),
    bound.trans (searchEnd_mono reached)⟩

end Timetable

end Recurrence.Crontab
