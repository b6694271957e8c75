import Mathlib.Data.List.Nodup
import Mathlib.Data.List.Perm.Subperm
import Recurrence.Proofs.Crontab.Spread
import Recurrence.Proofs.Crontab.Walk

namespace Recurrence.Crontab

/-! Projection agrees with the field grammar: between its start and its last run a schedule
runs exactly at the minutes whose parts the field grammar lists for its fields. -/

/-! Open day fields -/

theorem nodup_eraseDups [BEq α] [LawfulBEq α] (values : List α) : values.eraseDups.Nodup := by
  induction size : values.length using Nat.strongRecOn generalizing values with
  | ind n ih =>
      cases values with
      | nil => exact List.nodup_nil
      | cons value others =>
          have shorter : (others.filter (!· == value)).length < n :=
            size ▸ Nat.lt_succ_of_le (List.length_filter_le _ _)
          rw [List.eraseDups_cons, List.nodup_cons]
          refine ⟨?_, ih _ shorter _ rfl⟩
          simp [List.mem_eraseDups]

theorem Part.Writes.star_iff {part : Part} {text : List Char} (writes : part.Writes text) :
    part = .star ↔ text = ['*'] := by
  cases writes with
  | star => simp
  | starStep reads => simp
  | range readsFirst readsLast => simpa using plainNumber?_ne_star readsFirst _
  | rangeStep readsFirst readsLast readsStep =>
      simpa using plainNumber?_ne_star readsFirst _
  | single reads => simpa using plainNumber?_ne_star reads []

theorem Part.every_mem_entries {part : Part} {field : Field} :
    .every ∈ part.entries field ↔ part = .star := by
  cases part <;> simp [Part.entries]

theorem Part.lastDay_not_mem_entries {part : Part} {field : Field} :
    .lastDay ∉ part.entries field := by
  cases part <;> simp [Part.entries]

/-- What a part names lies in its field, even where a range runs over all of it. -/
theorem Part.bounds_of_value_mem {part : Part} {field : Field} (fits : part.Fits field.bounds)
    {n : Nat} (member : .value n ∈ part.entries field) : field.least ≤ n ∧ n ≤ field.greatest := by
  have within {first last step : Nat} (least : field.least ≤ first)
      (greatest : last ≤ field.greatest)
      (member : .value n ∈ (Field.climb first last step).map Entry.value) :
      field.least ≤ n ∧ n ≤ field.greatest := by
    obtain ⟨value, climbed, same⟩ := List.mem_map.mp member
    cases same
    have bounds := Field.mem_climb_bounds climbed
    exact ⟨least.trans bounds.1, bounds.2.trans greatest⟩
  have spanned {first last : Nat} (step : Nat) (least : field.least ≤ first)
      (greatest : last ≤ field.greatest)
      (member : .value n ∈ (field.spanned first last step).map Entry.value) :
      field.least ≤ n ∧ n ≤ field.greatest := by
    unfold Field.spanned at member
    split at member
    · exact within least greatest member
    · exact within (Nat.le_refl _) (Nat.le_refl _) member
  cases part with
  | star => simp [Part.entries] at member
  | starStep step => exact within (Nat.le_refl _) (Nat.le_refl _) member
  | range first last =>
      exact spanned 1 (Int.ofNat_le.mp fits.1) (Int.ofNat_le.mp fits.2.2) member
  | rangeStep first last step =>
      exact spanned step (Int.ofNat_le.mp fits.1.1) (Int.ofNat_le.mp fits.1.2.2) member
  | single value =>
      simp only [Part.entries, List.mem_singleton, Entry.value.injEq] at member
      subst member
      exact ⟨Int.ofNat_le.mp fits.1, Int.ofNat_le.mp fits.2⟩

/-- Entries that are values of a field are as many as the field has values exactly if they
are all of them. -/
theorem length_eq_size_iff {field : Field} {entries : List Entry} (distinct : entries.Nodup)
    (within : ∀ entry ∈ entries, ∃ n, entry = .value n ∧ field.least ≤ n ∧ n ≤ field.greatest) :
    entries.length = field.size ↔
      ∀ n, field.least ≤ n → n ≤ field.greatest → .value n ∈ entries := by
  let all := (List.range field.size).map fun place => Entry.value (place + field.least)
  have mem_all {entry : Entry} :
      entry ∈ all ↔ ∃ n, entry = .value n ∧ field.least ≤ n ∧ n ≤ field.greatest := by
    have limits := field.least_lt_greatest
    simp only [all, List.mem_map, List.mem_range, Field.size]
    constructor
    · intro member
      obtain ⟨place, bound, rfl⟩ := member
      exact ⟨_, rfl, by omega, by omega⟩
    · intro inField
      obtain ⟨n, rfl, least, greatest⟩ := inField
      exact ⟨n - field.least, by omega, by rw [Nat.sub_add_cancel least]⟩
  have allDistinct : all.Nodup :=
    List.nodup_range.map fun first second same => by simpa using same
  have sizes : all.length = field.size := by simp [all]
  rw [← sizes]
  constructor
  · intro lengths n least greatest
    have covered : entries.Subperm all :=
      distinct.subperm fun entry member => mem_all.mpr (within entry member)
    exact (covered.perm_of_length_le lengths.ge).mem_iff.mpr (mem_all.mpr ⟨n, rfl, least, greatest⟩)
  · intro every
    refine ((List.perm_ext_iff_of_nodup distinct allDistinct).mpr fun entry => ?_).length_eq
    constructor
    · exact fun member => mem_all.mpr (within entry member)
    · intro member
      obtain ⟨n, rfl, least, greatest⟩ := mem_all.mp member
      exact every n least greatest

/-- A day field lets every day pass if it is a star, or if it lists all of its days while a
star stands in the other day field. -/
def OpenDayField (field : Field) (text other : List Char) (values : List Int) : Prop :=
  text = ['*'] ∨
    (∀ n : Nat, field.least ≤ n → n ≤ field.greatest → (n : Int) ∈ values) ∧ '*' ∈ other

def isPointRange (item : List Char) : Bool :=
  let base := ((Text.splitFirst? '/' item).map (·.1)).getD item
  match Text.splitFirst? '-' base with
  | some (first, last) => (plainNumber? first).isSome && plainNumber? first == plainNumber? last
  | none => false

/-- Fields in which a bare star stands alone, and in which no range goes from a value to
itself. -/
def HasProperItems (text : List Char) : Prop :=
  ∀ item ∈ Text.splitAt ',' text, (item = ['*'] → text = ['*']) ∧ isPointRange item = false

instance : DecidablePred HasProperItems :=
  fun text => inferInstanceAs (Decidable (∀ item ∈ Text.splitAt ',' text, _))

variable {field : Field} {text other : List Char} {parts : List Part} {values : List Int}

theorem isPointRange_of_writes {part : Part} (writes : part.Writes text)
    (degenerate : part.IsDegenerate) : isPointRange text = true := by
  cases writes with
  | star | starStep _ | single _ => cases degenerate
  | @range _ _ _ lastText readsFirst readsLast =>
      cases degenerate
      have uncut := Text.splitFirst?_eq_none_iff.mpr (slash_not_mem_range readsFirst readsLast)
      have cut := Text.splitFirst?_append '-'
        (not_mem_of_plainNumber? readsFirst (by decide)) lastText
      simp [isPointRange, uncut, cut, readsFirst, readsLast]
  | @rangeStep _ _ _ _ lastText stepText readsFirst readsLast readsStep =>
      cases degenerate
      have stepCut := Text.splitFirst?_append '/'
        (slash_not_mem_range readsFirst readsLast) stepText
      have cut := Text.splitFirst?_append '-'
        (not_mem_of_plainNumber? readsFirst (by decide)) lastText
      simp only [isPointRange, stepCut, Option.map_some, Option.getD_some, cut]
      simp [readsFirst, readsLast]

theorem HasProperItems.not_degenerate (proper : HasProperItems text)
    (written : WrittenAs field text parts) : ∀ part ∈ parts, ¬ part.IsDegenerate := by
  intro part member degenerate
  obtain ⟨item, cut, writes⟩ := exists_right_of_forall₂ written.1 member
  have point := isPointRange_of_writes writes degenerate
  rw [(proper item cut).2] at point
  cases point

theorem HasProperItems.star_mem_iff (proper : HasProperItems text)
    (written : WrittenAs field text parts) : .star ∈ parts ↔ text = ['*'] := by
  constructor
  · intro member
    obtain ⟨item, cut, writes⟩ := exists_right_of_forall₂ written.1 member
    exact (proper item cut).1 (writes.star_iff.mp rfl)
  · intro star
    have cut : ['*'] ∈ Text.splitAt ',' text := by
      rw [star]
      decide
    obtain ⟨part, member, writes⟩ := exists_left_of_forall₂ written.1 cut
    exact writes.star_iff.mpr rfl ▸ member

/-- A field of proper items that is written as parts and stands for what they stand for. -/
structure StandsFor (field : Field) (text : List Char) (parts : List Part) (values : List Int) :
    Prop where
  proper : HasProperItems text
  written : WrittenAs field text parts
  mem_iff : ∀ value, value ∈ values ↔ ∃ part ∈ parts, value ∈ part.values field.bounds

namespace StandsFor

theorem mem_values (stands : StandsFor field text parts values) {n : Nat} :
    n ∈ field.values (partEntries field parts) ↔ (n : Int) ∈ values :=
  (mem_values_partEntries stands.written.2 (stands.proper.not_degenerate stands.written)).trans
    (stands.mem_iff n).symm

theorem every_mem_iff (stands : StandsFor field text parts values) :
    .every ∈ partEntries field parts ↔ text = ['*'] := by
  simp only [mem_partEntries, Part.every_mem_entries, exists_eq_right,
    stands.proper.star_mem_iff stands.written]

theorem lastDay_not_mem (parts : List Part) : .lastDay ∉ partEntries field parts := by
  intro member
  obtain ⟨part, _, named⟩ := mem_partEntries.mp member
  exact Part.lastDay_not_mem_entries named

theorem isOpen_iff (stands : StandsFor field text parts values) :
    Timetable.isOpen field ⟨partEntries field parts, []⟩ other = true ↔
      OpenDayField field text other values := by
  unfold Timetable.isOpen OpenDayField
  simp only [Bool.or_eq_true, Bool.and_eq_true, List.contains_iff_mem, beq_iff_eq,
    stands.every_mem_iff]
  by_cases star : text = ['*']
  · simp [star]
  · simp only [star, false_or]
    -- Where no star stands, the entries are values, and full lists are told by their length.
    refine and_congr_left fun _ => ?_
    have distinct : (partEntries field parts).Nodup := nodup_eraseDups _
    rw [length_eq_size_iff distinct]
    · refine forall_congr' fun n => forall_congr' fun least => forall_congr' fun greatest => ?_
      rw [← stands.mem_values, Field.mem_values, stands.every_mem_iff]
      simp [star, least, greatest]
    · intro entry member
      obtain ⟨part, inParts, named⟩ := mem_partEntries.mp member
      cases entry with
      | every => exact absurd (stands.every_mem_iff.mp member) star
      | lastDay => exact absurd member (lastDay_not_mem parts)
      | value n => exact ⟨n, rfl, Part.bounds_of_value_mem (stands.written.2 part inParts) named⟩

end StandsFor

theorem exists_standsFor (isWord : Text.IsWord text) (proper : HasProperItems text)
    (accepted : expandField field.bounds text = .ok values) :
    ∃ parts, StandsFor field text parts values := by
  obtain ⟨parts, written, stands⟩ := expandField_ok isWord.2 accepted
  exact ⟨parts, proper, written, stands⟩

/-! The timetable of a field-grammar expression -/

/-- Whether the day fields let a date pass: with one of them open the other decides, and with
none of them open either may name the date. -/
def DayFieldsAdmit (openDays openWeekdays : Prop) (days weekdays : List Int) (date : Date) : Prop :=
  (openDays ∧ openWeekdays) ∨
    (openDays ∧ ¬ openWeekdays ∧ (date.weekday.code : Int) ∈ weekdays) ∨
    (¬ openDays ∧ openWeekdays ∧ (date.day : Int) ∈ days) ∨
    (¬ openDays ∧ ¬ openWeekdays ∧ ((date.day : Int) ∈ days ∨ (date.weekday.code : Int) ∈ weekdays))

theorem Timetable.admitsDay_iff {table : Timetable} (noTurns : table.turns = [])
    (noLastDay : table.lastDay = false) (date : Date) :
    table.admitsDay date = true ↔
      (table.openDays = true ∧ table.openWeekdays = true) ∨
        (table.openDays = true ∧ ¬ table.openWeekdays = true ∧
          date.weekday.code ∈ table.weekdays) ∨
        (¬ table.openDays = true ∧ table.openWeekdays = true ∧ date.day ∈ table.days) ∨
        (¬ table.openDays = true ∧ ¬ table.openWeekdays = true ∧
          (date.day ∈ table.days ∨ date.weekday.code ∈ table.weekdays)) := by
  unfold admitsDay namesDay namesWeekday
  cases openDays : table.openDays <;> cases openWeekdays : table.openWeekdays <;>
    simp [noTurns, noLastDay]

/-- Everything about an expression of the field grammar that decides when it runs. -/
structure Listing (expression : List Char) where
  minuteText : List Char
  hourText : List Char
  dayText : List Char
  monthText : List Char
  weekdayText : List Char
  words : Text.words expression = [minuteText, hourText, dayText, monthText, weekdayText]
  minutes : List Int
  hours : List Int
  days : List Int
  months : List Int
  weekdays : List Int
  minutesRead : expandField Field.minute.bounds minuteText = .ok minutes
  hoursRead : expandField Field.hour.bounds hourText = .ok hours
  daysRead : expandField Field.dayOfMonth.bounds dayText = .ok days
  monthsRead : expandField Field.month.bounds monthText = .ok months
  weekdaysRead : expandField Field.dayOfWeek.bounds weekdayText = .ok weekdays

/-- The minutes that the lists of an expression name. -/
def Listing.Names {expression : List Char} (listing : Listing expression) (moment : Moment) : Prop :=
  (moment.minute : Int) ∈ listing.minutes ∧ (moment.hour : Int) ∈ listing.hours ∧
    (moment.date.month : Int) ∈ listing.months ∧
    DayFieldsAdmit (OpenDayField .dayOfMonth listing.dayText listing.weekdayText listing.days)
      (OpenDayField .dayOfWeek listing.weekdayText listing.dayText listing.weekdays)
      listing.days listing.weekdays moment.date

theorem ofText?_unwords {minuteText hourText dayText monthText weekdayText expression : List Char}
    (words : Text.words expression = [minuteText, hourText, dayText, monthText, weekdayText]) :
    Timetable.ofText? (splitSeconds expression).2 =
      some (Timetable.ofFields minuteText hourText dayText monthText weekdayText) := by
  have rejoined : Text.words (splitSeconds expression).2 = Text.words expression := by
    rw [splitSeconds, words]
    exact Text.words_unwords fun word member => Text.isWord_of_mem_words (words ▸ member)
  rw [Timetable.ofText?, rejoined, words]

theorem runsAt_ofSpreads_iff {minuteText hourText dayText monthText weekdayText : List Char}
    {minuteParts hourParts dayParts monthParts weekdayParts : List Part}
    {minutes hours days months weekdays : List Int}
    (minute : StandsFor .minute minuteText minuteParts minutes)
    (hour : StandsFor .hour hourText hourParts hours)
    (day : StandsFor .dayOfMonth dayText dayParts days)
    (month : StandsFor .month monthText monthParts months)
    (weekday : StandsFor .dayOfWeek weekdayText weekdayParts weekdays)
    {moment : Moment} (whole : moment.IsWholeMinute) :
    (Timetable.ofSpreads dayText weekdayText ⟨partEntries .minute minuteParts, []⟩
        ⟨partEntries .hour hourParts, []⟩ ⟨partEntries .dayOfMonth dayParts, []⟩
        ⟨partEntries .month monthParts, []⟩ ⟨partEntries .dayOfWeek weekdayParts, []⟩).RunsAt
        moment ↔
      (moment.minute : Int) ∈ minutes ∧ (moment.hour : Int) ∈ hours ∧
        (moment.date.month : Int) ∈ months ∧
        DayFieldsAdmit (OpenDayField .dayOfMonth dayText weekdayText days)
          (OpenDayField .dayOfWeek weekdayText dayText weekdays) days weekdays moment.date := by
  let table := Timetable.ofSpreads dayText weekdayText ⟨partEntries .minute minuteParts, []⟩
    ⟨partEntries .hour hourParts, []⟩ ⟨partEntries .dayOfMonth dayParts, []⟩
    ⟨partEntries .month monthParts, []⟩ ⟨partEntries .dayOfWeek weekdayParts, []⟩
  have minuteBound : ∀ minute ∈ table.minutes, minute < 60 := fun minute member =>
    Nat.lt_succ_of_le (Field.mem_values.mp member).1.2
  have noLastDay : table.lastDay = false :=
    Bool.eq_false_iff.mpr fun lastDay =>
      StandsFor.lastDay_not_mem dayParts (List.contains_iff_mem.mp lastDay)
  have openDays : table.openDays = true ↔ OpenDayField .dayOfMonth dayText weekdayText days := by
    rw [← lower_of_partChars weekday.written.chars]
    exact day.isOpen_iff
  have openWeekdays : table.openWeekdays = true ↔
      OpenDayField .dayOfWeek weekdayText dayText weekdays := by
    rw [← lower_of_partChars day.written.chars]
    exact weekday.isOpen_iff
  have dayNamed : moment.date.day ∈ table.days ↔ (moment.date.day : Int) ∈ days := day.mem_values
  have weekdayNamed : moment.date.weekday.code ∈ table.weekdays ↔
      (moment.date.weekday.code : Int) ∈ weekdays := weekday.mem_values
  have admitted := Timetable.admitsDay_iff rfl noLastDay moment.date
  rw [openDays, openWeekdays, dayNamed, weekdayNamed] at admitted
  constructor
  · intro runsAt
    obtain ⟨_, runsOn, time⟩ := runsAt
    obtain ⟨hours, minutes⟩ := (Timetable.mem_times minuteBound).mp time
    obtain ⟨months, days⟩ := (Bool.and_eq_true _ _).mp runsOn
    exact ⟨minute.mem_values.mp minutes, hour.mem_values.mp hours,
      month.mem_values.mp (List.contains_iff_mem.mp months), admitted.mp days⟩
  · intro names
    obtain ⟨minutes, hours, months, days⟩ := names
    refine ⟨whole, ?_, (Timetable.mem_times minuteBound).mpr
      ⟨hour.mem_values.mpr hours, minute.mem_values.mpr minutes⟩⟩
    exact (Bool.and_eq_true _ _).mpr
      ⟨List.contains_iff_mem.mpr (month.mem_values.mpr months), admitted.mpr days⟩

/-- An expression of the field grammar has a timetable, and if its ranges are proper it runs
when the lists of its fields say. -/
theorem exists_timetable {expression : List Char} (listing : Listing expression)
    (proper : ∀ text ∈ Text.words expression, HasProperItems text) :
    ∃ table : Timetable, table.Ordered ∧
      (∀ count start, nextRuns expression count .five start = table.runs count.toNat start) ∧
      ∀ moment : Moment, moment.IsWholeMinute → (table.RunsAt moment ↔ listing.Names moment) := by
  obtain ⟨minuteText, hourText, dayText, monthText, weekdayText, words, minutes, hours, days, months,
    weekdays, minutesRead, hoursRead, daysRead, monthsRead, weekdaysRead⟩ := listing
  have isWord : ∀ text ∈ Text.words expression, Text.IsWord text :=
    fun text => Text.isWord_of_mem_words
  simp only [words, List.forall_mem_cons] at isWord proper
  obtain ⟨minuteWord, hourWord, dayWord, monthWord, weekdayWord, _⟩ := isWord
  obtain ⟨minuteProper, hourProper, dayProper, monthProper, weekdayProper, _⟩ := proper
  obtain ⟨_, minute⟩ := exists_standsFor minuteWord minuteProper minutesRead
  obtain ⟨_, hour⟩ := exists_standsFor hourWord hourProper hoursRead
  obtain ⟨_, day⟩ := exists_standsFor dayWord dayProper daysRead
  obtain ⟨_, month⟩ := exists_standsFor monthWord monthProper monthsRead
  obtain ⟨_, weekday⟩ := exists_standsFor weekdayWord weekdayProper weekdaysRead
  have read := ofText?_unwords words
  rw [Timetable.ofFields_of_writtenAs minute.written hour.written day.written month.written
    weekday.written] at read
  refine ⟨_, Timetable.ofText?_ordered read, fun count start => ?_, fun moment whole =>
    runsAt_ofSpreads_iff minute hour day month weekday whole⟩
  simp [nextRuns, words, Format.fieldCount, read]

/-- A whole minute behind the start and up to the last run is a run exactly if the lists of
the fields name it. Fewer runs than asked for are given only where no minute that the lists
name is left in the years that the search looks at. -/
theorem mem_nextRuns_iff {expression : List Char} (listing : Listing expression)
    (proper : ∀ text ∈ Text.words expression, HasProperItems text) (count : Int) (start : Moment) :
    (∀ moment : Moment, moment.IsWholeMinute → start < moment →
        moment ≤ (nextRuns expression count .five start).getLast?.getD start →
        (moment ∈ nextRuns expression count .five start ↔ listing.Names moment)) ∧
      ((nextRuns expression count .five start).length < count →
        ∀ moment : Moment, moment.IsWholeMinute → listing.Names moment →
          (nextRuns expression count .five start).getLast?.getD start < moment →
          (searchEnd ((nextRuns expression count .five start).getLast?.getD start)).ordinal <
            moment.date.ordinal) := by
  obtain ⟨table, ordered, runs, names⟩ := exists_timetable listing proper
  rw [runs]
  constructor
  · intro moment whole behind bound
    rw [← names moment whole]
    cases reached : (table.runs count.toNat start).getLast? with
    | none =>
        rw [reached] at bound
        exact absurd bound (not_le.mpr behind)
    | some last =>
        rw [reached] at bound
        exact Timetable.mem_runs_iff ordered reached behind bound
  · intro short moment whole named behind
    exact Timetable.searchEnd_lt_of_runs_short ordered (by omega)
      ((names moment whole).mpr named) behind

theorem mem_nextRuns_iff_wholeMonth :
    ∃ listing : Listing "*/20,7 9 1-31 2 */2".toList,
      (Moment.ofIso? "2024-02-29T09:07:00".toList).get (by decide) ∈
          nextRuns "*/20,7 9 1-31 2 */2".toList 5 .five
            ((Moment.ofIso? "2024-02-27T09:20:00".toList).get (by decide)) ∧
        listing.Names ((Moment.ofIso? "2024-02-29T09:07:00".toList).get (by decide)) :=
  ⟨⟨"*/20,7".toList, "9".toList, "1-31".toList, "2".toList, "*/2".toList, by decide,
      [0, 7, 20, 40], [9], (List.range 31).map (· + 1), [2], [0, 2, 4, 6],
      by decide, by decide, by decide, by decide, by decide⟩,
    by decide +kernel,
    ((mem_nextRuns_iff _ (by decide) 5
        ((Moment.ofIso? "2024-02-27T09:20:00".toList).get (by decide))).1 _ (by decide)
      (by decide +kernel) (by decide +kernel)).mp (by decide +kernel)⟩

end Recurrence.Crontab
