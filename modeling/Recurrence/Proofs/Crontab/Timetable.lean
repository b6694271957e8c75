import Mathlib.Data.List.Pairwise
import Recurrence.Crontab.Timetable
import Recurrence.Proofs.Calendar.Order

namespace Recurrence.Crontab

/-! What a timetable names. `Timetable.RunsAt` says at which moments it runs; a timetable
that was read from a text lists its times of day in their order. -/

theorem Field.values_ascending (field : Field) (entries : List Entry) :
    (field.values entries).Pairwise (· < ·) := by
  refine List.Pairwise.filter _ ?_
  rw [List.pairwise_map]
  exact List.pairwise_lt_range.imp fun less => Nat.add_lt_add_right less _

theorem Field.mem_values {field : Field} {entries : List Entry} {n : Nat} :
    n ∈ field.values entries ↔
      (field.least ≤ n ∧ n ≤ field.greatest) ∧ (.every ∈ entries ∨ .value n ∈ entries) := by
  have sizes : field.least ≤ field.greatest := by cases field <;> decide
  simp only [Field.values, Field.size, List.mem_filter, List.mem_map, List.mem_range,
    Bool.or_eq_true, List.contains_iff_mem]
  constructor
  · intro member
    obtain ⟨⟨place, bound, rfl⟩, named⟩ := member
    exact ⟨by omega, named⟩
  · intro member
    obtain ⟨bounds, named⟩ := member
    exact ⟨⟨n - field.least, by omega, by omega⟩, named⟩

namespace Timetable

/-- The moments that a timetable names. -/
structure RunsAt (table : Timetable) (moment : Moment) : Prop where
  whole : moment.IsWholeMinute
  day : table.runsOn moment.date = true
  time : moment.minuteOfDay ∈ table.times

/-- Timetables whose times of day are listed in their order. -/
structure Ordered (table : Timetable) : Prop where
  ascending : table.times.Pairwise (· < ·)
  withinDay : ∀ time ∈ table.times, time < 1440

def ofSpreads (dayText weekdayText : List Char) (minutes hours days months weekdays : Spread) :
    Timetable where
  minutes := Field.minute.values minutes.entries
  hours := Field.hour.values hours.entries
  months := Field.month.values months.entries
  openDays := isOpen .dayOfMonth days (Text.lower weekdayText)
  days := Field.dayOfMonth.values days.entries
  lastDay := days.entries.contains .lastDay
  openWeekdays := isOpen .dayOfWeek weekdays (Text.lower dayText)
  weekdays := Field.dayOfWeek.values weekdays.entries
  turns := weekdays.turns

theorem ofFields_eq_ok_iff {minuteText hourText dayText monthText weekdayText : List Char}
    {table : Timetable} :
    ofFields minuteText hourText dayText monthText weekdayText = .ok table ↔
      ∃ minutes hours days months weekdays,
        Field.minute.spread (Text.lower minuteText) = .ok minutes ∧
        Field.hour.spread (Text.lower hourText) = .ok hours ∧
        Field.dayOfMonth.spread (Text.lower dayText) = .ok days ∧
        Field.month.spread (Text.lower monthText) = .ok months ∧
        Field.dayOfWeek.spread (Text.lower weekdayText) = .ok weekdays ∧
        mixesTurns weekdays = false ∧
        table = ofSpreads dayText weekdayText minutes hours days months weekdays := by
  simp only [ofFields]
  cases minutesRead : Field.minute.spread (Text.lower minuteText) with
  | error fault => simp [bind, Except.bind]
  | ok minutes =>
  cases hoursRead : Field.hour.spread (Text.lower hourText) with
  | error fault => simp [bind, Except.bind]
  | ok hours =>
  cases daysRead : Field.dayOfMonth.spread (Text.lower dayText) with
  | error fault => simp [bind, Except.bind]
  | ok days =>
  cases monthsRead : Field.month.spread (Text.lower monthText) with
  | error fault => simp [bind, Except.bind]
  | ok months =>
  cases weekdaysRead : Field.dayOfWeek.spread (Text.lower weekdayText) with
  | error fault => simp [bind, Except.bind]
  | ok weekdays =>
  cases mixed : mixesTurns weekdays with
  | true => simp [bind, Except.bind, mixed, throw, throwThe, MonadExceptOf.throw]
  | false =>
      simp only [bind, Except.bind, mixed, Bool.false_eq_true, if_false, pure, Except.pure,
        Except.ok.injEq]
      constructor
      · intro read
        exact ⟨minutes, hours, days, months, weekdays, rfl, rfl, rfl, rfl, rfl, mixed, read.symm⟩
      · intro read
        obtain ⟨_, _, _, _, _, rfl, rfl, rfl, rfl, rfl, _, rfl⟩ := read
        rfl

theorem times_ascending {table : Timetable} (hours : table.hours.Pairwise (· < ·))
    (minutes : table.minutes.Pairwise (· < ·)) (bound : ∀ minute ∈ table.minutes, minute < 60) :
    table.times.Pairwise (· < ·) := by
  unfold times
  rw [List.pairwise_flatMap]
  constructor
  · intro hour _
    rw [List.pairwise_map]
    exact minutes.imp fun less => Nat.add_lt_add_left less _
  · refine hours.imp fun {earlier later} less first inEarlier second inLater => ?_
    obtain ⟨minute, member, rfl⟩ := List.mem_map.mp inEarlier
    obtain ⟨other, _, rfl⟩ := List.mem_map.mp inLater
    have := bound minute member
    omega

theorem mem_times {table : Timetable} (bound : ∀ minute ∈ table.minutes, minute < 60)
    {moment : Moment} :
    moment.minuteOfDay ∈ table.times ↔ moment.hour ∈ table.hours ∧ moment.minute ∈ table.minutes := by
  have := moment.minute_lt
  simp only [times, List.mem_flatMap, List.mem_map, Moment.minuteOfDay]
  constructor
  · intro listed
    obtain ⟨hour, inHours, minute, inMinutes, same⟩ := listed
    have := bound minute inMinutes
    have hours : hour = moment.hour := by omega
    have minutes : minute = moment.minute := by omega
    exact ⟨hours ▸ inHours, minutes ▸ inMinutes⟩
  · intro listed
    obtain ⟨inHours, inMinutes⟩ := listed
    exact ⟨moment.hour, inHours, moment.minute, inMinutes, rfl⟩

theorem ofSpreads_ordered (dayText weekdayText : List Char)
    (minutes hours days months weekdays : Spread) :
    (ofSpreads dayText weekdayText minutes hours days months weekdays).Ordered := by
  have minuteBound : ∀ minute ∈ Field.minute.values minutes.entries, minute < 60 := by
    intro minute member
    exact Nat.lt_succ_of_le (Field.mem_values.mp member).1.2
  constructor
  · exact times_ascending (Field.values_ascending _ _) (Field.values_ascending _ _) minuteBound
  · intro time member
    simp only [times, List.mem_flatMap, List.mem_map] at member
    obtain ⟨hour, inHours, minute, inMinutes, rfl⟩ := member
    have hourBound : hour ≤ 23 := (Field.mem_values.mp inHours).1.2
    have := minuteBound minute inMinutes
    omega

theorem ofText?_ordered {expression : List Char} {table : Timetable}
    (read : ofText? expression = some (.ok table)) : table.Ordered := by
  unfold ofText? at read
  split at read
  · obtain ⟨minutes, hours, days, months, weekdays, _, _, _, _, _, _, rfl⟩ :=
      ofFields_eq_ok_iff.mp (Option.some.inj read)
    exact ofSpreads_ordered _ _ _ _ _ _ _
  · cases read

end Timetable

end Recurrence.Crontab
