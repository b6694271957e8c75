import Mathlib.Data.List.Chain
import Recurrence.Calendar.Iso
import Recurrence.Proofs.Crontab.NextRun

namespace Recurrence.Crontab

/-! Runs as a walk from each one to the next. Where a walk starts between two runs and how
many steps it is given never loses, adds or moves a run. -/

namespace Timetable

variable {table : Timetable} {start restart run next : Moment} {count : Nat}

theorem runs_succ_of_none (none : table.next? start = none) :
    table.runs (count + 1) start = [] := by
  simp [runs, none]

theorem runs_succ_of_some (found : table.next? start = some next) :
    table.runs (count + 1) start = next :: table.runs count next := by
  simp [runs, found]

theorem runs_length_le (table : Timetable) (count : Nat) (start : Moment) :
    (table.runs count start).length ≤ count := by
  induction count generalizing start with
  | zero => exact Nat.le_refl _
  | succ count ih =>
      unfold runs
      split
      · exact Nat.succ_le_succ (ih _)
      · exact Nat.zero_le _

theorem runsAt_of_mem_runs (ordered : table.Ordered) (member : run ∈ table.runs count start) :
    table.RunsAt run := by
  induction count generalizing start with
  | zero => cases member
  | succ count ih =>
      cases found : table.next? start with
      | none =>
          rw [runs_succ_of_none found] at member
          cases member
      | some next =>
          rw [runs_succ_of_some found] at member
          rcases List.mem_cons.mp member with rfl | further
          · exact (next?_sound ordered found).1
          · exact ih further

/-- What holds of a moment that is named and the next run behind it holds of any two runs that follow
each other. -/
theorem runs_isChain (ordered : table.Ordered) {follows : Moment → Moment → Prop}
    (step : ∀ run next, table.RunsAt run → table.next? run = some next → follows run next) :
    (table.runs count start).IsChain follows := by
  induction count generalizing start with
  | zero => exact .nil
  | succ count ih =>
      cases found : table.next? start with
      | none =>
          rw [runs_succ_of_none found]
          exact .nil
      | some run =>
          have runsAt := (next?_sound ordered found).1
          rw [runs_succ_of_some found]
          refine List.isChain_cons.mpr ⟨fun next head => step run next runsAt ?_, ih⟩
          cases count with
          | zero => cases head
          | succ count =>
              cases further : table.next? run with
              | none =>
                  rw [runs_succ_of_none further] at head
                  cases head
              | some following =>
                  rw [runs_succ_of_some further] at head
                  exact head

theorem runs_ascending (ordered : table.Ordered) :
    (start :: table.runs count start).Pairwise (· < ·) := by
  induction count generalizing start with
  | zero => exact List.pairwise_singleton _ _
  | succ count ih =>
      cases found : table.next? start with
      | none =>
          rw [runs_succ_of_none found]
          exact List.pairwise_singleton _ _
      | some next =>
          rw [runs_succ_of_some found]
          have behind := (next?_sound ordered found).2.1
          have further : (next :: table.runs count next).Pairwise (· < ·) := ih
          refine List.pairwise_cons.mpr ⟨fun later member => ?_, further⟩
          rcases List.mem_cons.mp member with rfl | inFurther
          · exact behind
          · exact lt_trans behind (List.rel_of_pairwise_cons further inFurther)

theorem runs_take (table : Timetable) {fewer count : Nat} (bound : fewer ≤ count)
    (start : Moment) : (table.runs count start).take fewer = table.runs fewer start := by
  induction fewer generalizing count start with
  | zero => rfl
  | succ fewer ih =>
      obtain ⟨count, rfl⟩ := Nat.exists_eq_add_of_le' (Nat.one_le_of_lt bound)
      cases found : table.next? start with
      | none => rw [runs_succ_of_none found, runs_succ_of_none found, List.take_nil]
      | some next =>
          rw [runs_succ_of_some found, runs_succ_of_some found, List.take_succ_cons,
            ih (Nat.le_of_succ_le_succ bound)]

/-- A walk that starts anywhere between two runs goes on with the second of them. -/
theorem runs_restart (ordered : table.Ordered) {place more : Nat} {before : Moment}
    (left : (start :: table.runs count start)[place]? = some before)
    (right : (table.runs count start)[place]? = some run)
    (reached : before ≤ restart) (ahead : restart < run)
    (bound : more ≤ (table.runs count start).length - place) :
    table.runs more restart = ((table.runs count start).drop place).take more := by
  induction count generalizing start place with
  | zero => cases right
  | succ count ih =>
      cases found : table.next? start with
      | none =>
          rw [runs_succ_of_none found] at right
          cases right
      | some next =>
          rw [runs_succ_of_some found] at left right bound ⊢
          -- Before the first run the search itself is started anew, further on the rest of it is.
          cases place with
          | zero =>
              simp only [List.getElem?_cons_zero, Option.some.injEq] at left right
              subst left right
              cases more with
              | zero => rfl
              | succ more =>
                  have covered : more ≤ count := by
                    have := table.runs_length_le count next
                    simp only [List.length_cons] at bound
                    omega
                  rw [runs_succ_of_some (next?_of_between ordered found reached ahead),
                    List.drop_zero, List.take_succ_cons, table.runs_take covered]
          | succ place =>
              rw [List.getElem?_cons_succ] at left right
              rw [List.drop_succ_cons]
              refine ih left right ?_
              rw [List.length_cons] at bound
              omega

/-- Up to the last run of a walk the timetable names nothing but its runs. -/
theorem mem_runs_iff (ordered : table.Ordered) {last moment : Moment}
    (reached : (table.runs count start).getLast? = some last) (behind : start < moment)
    (bound : moment ≤ last) : moment ∈ table.runs count start ↔ table.RunsAt moment := by
  refine ⟨runsAt_of_mem_runs ordered, fun runsAt => ?_⟩
  induction count generalizing start with
  | zero => cases reached
  | succ count ih =>
      cases found : table.next? start with
      | none =>
          rw [runs_succ_of_none found] at reached
          cases reached
      | some next =>
          rw [runs_succ_of_some found] at reached ⊢
          -- The first run is the earliest moment named, so any other one comes after it.
          have least := (next?_sound ordered found).2.2.1 moment runsAt behind
          rcases eq_or_lt_of_le least with rfl | further
          · exact List.mem_cons_self
          · refine List.mem_cons_of_mem _ (ih ?_ further)
            cases rest : table.runs count next with
            | nil =>
                rw [rest, List.getLast?_singleton, Option.some.injEq] at reached
                exact absurd (reached ▸ bound) (not_le.mpr further)
            | cons following others =>
                rw [rest, List.getLast?_cons_cons] at reached
                exact reached

/-- Two timetables have the same runs from every start if they name the same moments, save the
first one of the calendar, which no start lies before. -/
theorem runs_eq_iff {other : Timetable} (ordered : table.Ordered) (otherOrdered : other.Ordered) :
    (∀ count start, table.runs count start = other.runs count start) ↔
      ∀ start moment, start < moment → (table.RunsAt moment ↔ other.RunsAt moment) := by
  constructor
  · intro same start moment behind
    have runsAt {one another : Timetable} (oneOrdered : one.Ordered)
        (anotherOrdered : another.Ordered)
        (alike : ∀ start, one.runs 1 start = another.runs 1 start) (runsAt : one.RunsAt moment) :
        another.RunsAt moment := by
      obtain ⟨before, next⟩ := exists_next?_eq runsAt.whole behind
      refine runsAt_of_mem_runs anotherOrdered (?_ : moment ∈ another.runs 1 before)
      rw [← alike, runs_succ_of_some (next one oneOrdered runsAt)]
      exact List.mem_cons_self
    exact ⟨runsAt ordered otherOrdered (same 1),
      runsAt otherOrdered ordered fun start => (same 1 start).symm⟩
  · intro same count start
    have next (start : Moment) : table.next? start = other.next? start :=
      Option.ext fun run => ⟨next?_eq_some_of_same ordered otherOrdered (same start),
        next?_eq_some_of_same otherOrdered ordered fun moment behind =>
          (same start moment behind).symm⟩
    induction count generalizing start with
    | zero => rfl
    | succ count ih => simp only [runs, next, ih]

/-- A walk ends early only where no run is left in the years that its last search looked at. -/
theorem searchEnd_lt_of_runs_short (ordered : table.Ordered)
    (short : (table.runs count start).length < count) {moment : Moment}
    (runsAt : table.RunsAt moment)
    (behind : (table.runs count start).getLast?.getD start < moment) :
    (searchEnd ((table.runs count start).getLast?.getD start)).ordinal < moment.date.ordinal := by
  induction count generalizing start with
  | zero => cases short
  | succ count ih =>
      cases found : table.next? start with
      | none =>
          rw [runs_succ_of_none found] at behind ⊢
          exact searchEnd_lt_of_next?_eq_none ordered found runsAt behind
      | some next =>
          rw [runs_succ_of_some found] at short behind ⊢
          have last : (next :: table.runs count next).getLast?.getD start =
              (table.runs count next).getLast?.getD next := by
            cases table.runs count next with
            | nil => rfl
            | cons following others =>
                rw [List.getLast?_cons_cons, List.getLast?_cons, Option.getD_some, Option.getD_some]
          rw [last] at behind ⊢
          exact ih (Nat.lt_of_succ_lt_succ short) behind

end Timetable

/-- The runs of an expression are those of the timetable of its five fields, or none. -/
theorem nextRuns_eq_nil_or (expression : List Char) (format : Format) :
    (∀ count start, nextRuns expression count format start = []) ∨
      ∃ table : Timetable, table.Ordered ∧
        (Text.words expression).length = format.fieldCount ∧
        ∀ count start, nextRuns expression count format start = table.runs count.toNat start := by
  by_cases fits : (Text.words expression).length = format.fieldCount
  · cases read : Timetable.ofText? (splitSeconds expression).2 with
    | none => exact Or.inl fun count start => by simp [nextRuns, fits, read]
    | some outcome =>
        cases outcome with
        | error fault => exact Or.inl fun count start => by simp [nextRuns, fits, read]
        | ok table =>
            exact Or.inr ⟨table, Timetable.ofText?_ordered read, fits,
              fun count start => by simp [nextRuns, fits, read]⟩
  · exact Or.inl fun count start => by simp [nextRuns, fits]

/-- The runs behind a start are at most as many as asked for, whole minutes in strictly
ascending order and later than the start. A search that starts at one of them, or anywhere
before the next one, goes on with exactly the runs that are left. -/
theorem nextRuns_walk (expression : List Char) (count : Int) (format : Format) (start : Moment) :
    (nextRuns expression count format start).length ≤ count.toNat ∧
      (∀ run ∈ nextRuns expression count format start, run.IsWholeMinute) ∧
      (start :: nextRuns expression count format start).Pairwise (· < ·) ∧
      (count ≤ 0 ∨ (Text.words expression).length ≠ format.fieldCount →
        nextRuns expression count format start = []) ∧
      ∀ (place : Nat) (before run restart : Moment) (more : Int),
        (start :: nextRuns expression count format start)[place]? = some before →
        (nextRuns expression count format start)[place]? = some run →
        before ≤ restart → restart < run →
        more ≤ (nextRuns expression count format start).length - place →
        nextRuns expression more format restart =
          ((nextRuns expression count format start).drop place).take more.toNat := by
  rcases nextRuns_eq_nil_or expression format with none | ⟨table, ordered, fits, runs⟩
  · simp [none]
  · simp only [runs]
    refine ⟨table.runs_length_le _ _, fun run member =>
      (Timetable.runsAt_of_mem_runs ordered member).whole, Timetable.runs_ascending ordered,
      ?_, ?_⟩
    · intro unfitting
      rcases unfitting with empty | unfit
      · rw [Int.toNat_of_nonpos empty]
        rfl
      · exact absurd fits unfit
    · intro place before run restart more left right reached ahead bound
      exact Timetable.runs_restart ordered left right reached ahead (by omega)

theorem nextRuns_walk_february :
    nextRuns "0 30 9 28-31 feb,3 *".toList 2 .six
        ((Moment.ofIso? "2024-03-01T12:30:45.000001".toList).get (by decide)) =
      ((nextRuns "0 30 9 28-31 feb,3 *".toList 3 .six
        ((Moment.ofIso? "2024-02-28T09:30:00".toList).get (by decide))).drop 1).take 2 :=
  (nextRuns_walk "0 30 9 28-31 feb,3 *".toList 3 .six _).2.2.2.2 1
    ((Moment.ofIso? "2024-02-29T09:30:00".toList).get (by decide))
    ((Moment.ofIso? "2024-03-28T09:30:00".toList).get (by decide)) _ 2
    (by decide +kernel) (by decide +kernel) (by decide +kernel) (by decide +kernel)
    (by decide +kernel)

end Recurrence.Crontab
