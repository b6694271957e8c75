import Recurrence.Proofs.Crontab.Agreement
import Recurrence.Proofs.Crontab.FieldLanguage
import Recurrence.Proofs.Schedules
import Recurrence.Proofs.Unambiguity

namespace Recurrence

/-! Schedules of intervals. A step over the minutes of an hour, or over the hours of a day, starts
anew with the next hour or day, so its runs are as far apart as the phrase says only if the step
divides them evenly. -/

open Crontab Phrase Pattern

namespace Crontab

/-! Runs of lines -/

variable {field : Field} {text : List Char} {parts : List Part} {line : Line}

namespace Term

/-- The values of a field that a term names. -/
def Names (field : Field) (term : Term) (n : Nat) : Prop :=
  ∃ part ∈ term.parts, part.Denotes field.bounds n

theorem names_any {n : Nat} : any.Names field n ↔ field.least ≤ n ∧ n ≤ field.greatest := by
  simp [Names, parts, Part.Denotes, Field.bounds]

theorem names_value {k n : Nat} : (value k).Names field n ↔ n = k := by
  simp only [Names, parts, value, Part.Denotes, List.map_cons, List.map_nil, List.mem_singleton,
    exists_eq_left, Int.toNat_natCast]
  exact Int.ofNat_inj

theorem names_every {step n : Nat} (fromZero : field.least = 0) (bound : n ≤ field.greatest) :
    (every step).Names field n ↔ step ∣ n := by
  simp only [Names, parts, Part.Denotes, Field.bounds, fromZero, List.mem_singleton,
    exists_eq_left, Int.toNat_natCast]
  constructor
  · rintro ⟨place, same, _⟩
    exact ⟨place, by exact_mod_cast same.trans (Int.zero_add _)⟩
  · rintro ⟨place, rfl⟩
    exact ⟨place, by simp, by exact_mod_cast bound⟩

theorem hasProperItems_every (step : Int) (fits : (every step).Fits field) :
    HasProperItems (every step).text := by
  have slash : (every step).text = ['*'] ++ '/' :: Text.signed step := rfl
  have alone : Text.splitAt ',' (every step).text = [(every step).text] := by
    obtain ⟨item, rest, _, noRest, cut⟩ := List.forall₂_cons_left_iff.mp fits.writtenAs.1
    rw [List.forall₂_nil_left_iff] at noRest
    have whole := Text.intercalate_splitAt ',' (every step).text
    rw [cut, noRest, List.intercalate_singleton] at whole
    rw [cut, noRest, whole]
  unfold HasProperItems
  rw [alone]
  refine List.forall_mem_singleton.mpr ⟨id, ?_⟩
  rw [isPointRange, slash, Text.splitFirst?_append '/' (by decide)]
  rfl

end Term

theorem standsFor_of_writtenAs (proper : HasProperItems text)
    (written : WrittenAs field text parts) :
    StandsFor field text parts (parts.flatMap (·.values field.bounds)) :=
  ⟨proper, written, fun _ => List.mem_flatMap⟩

/-- A line that leaves the days open runs at the whole minutes that its other terms name. -/
theorem Line.Fits.exists_timetable (minute hour month : Term)
    (fits : (⟨minute, hour, .any, month, .any⟩ : Line).Fits)
    (proper : ∀ term ∈ [minute, hour, month], HasProperItems term.text) :
    ∃ table : Timetable, table.Ordered ∧
      (∀ count start, nextRuns (⟨minute, hour, .any, month, .any⟩ : Line).text count .five start =
        table.runs count.toNat start) ∧
      ∀ moment : Moment, table.RunsAt moment ↔ moment.IsWholeMinute ∧
        minute.Names .minute moment.minute ∧ hour.Names .hour moment.hour ∧
        month.Names .month moment.date.month := by
  have words := fits.words
  simp only [Line.terms, List.map_cons, List.map_nil] at words
  simp only [List.forall_mem_cons] at proper
  obtain ⟨minuteProper, hourProper, monthProper, _⟩ := proper
  have anyProper : HasProperItems Term.any.text := by decide
  have names {field : Field} {term : Term} (fits : term.Fits field) {n : Nat} :
      (n : Int) ∈ term.parts.flatMap (·.values field.bounds) ↔ term.Names field n :=
    mem_flatMap_values_iff fits.writtenAs.2
  have open_ {field : Field} {other : List Char} {values : List Int} :
      OpenDayField field Term.any.text other values := Or.inl rfl
  have read := ofText?_unwords words
  rw [Timetable.ofFields_of_writtenAs fits.minute.writtenAs fits.hour.writtenAs
    fits.dayOfMonth.writtenAs fits.month.writtenAs fits.dayOfWeek.writtenAs] at read
  refine ⟨_, Timetable.ofText?_ordered read, fun count start => ?_, fun moment => ?_⟩
  · simp [nextRuns, words, Format.fieldCount, read]
  · have runsAt := fun whole : moment.IsWholeMinute => runsAt_ofSpreads_iff
      (standsFor_of_writtenAs minuteProper fits.minute.writtenAs)
      (standsFor_of_writtenAs hourProper fits.hour.writtenAs)
      (standsFor_of_writtenAs anyProper fits.dayOfMonth.writtenAs)
      (standsFor_of_writtenAs monthProper fits.month.writtenAs)
      (standsFor_of_writtenAs anyProper fits.dayOfWeek.writtenAs) whole
    constructor
    · intro runs
      obtain ⟨minutes, hours, months, _⟩ := (runsAt runs.whole).mp runs
      exact ⟨runs.whole, (names fits.minute).mp minutes, (names fits.hour).mp hours,
        (names fits.month).mp months⟩
    · rintro ⟨whole, minutes, hours, months⟩
      exact (runsAt whole).mpr ⟨(names fits.minute).mpr minutes, (names fits.hour).mpr hours,
        (names fits.month).mpr months, Or.inl ⟨open_, open_⟩⟩

end Crontab

/-! Units -/

/-- The units of intervals that are taken to be exact. -/
inductive IntervalUnit where
  | minute | hour

namespace IntervalUnit

def name : IntervalUnit → String
  | .minute => "minute"
  | .hour => "hour"

/-- How many units it takes until the count starts anew. -/
def cycle : IntervalUnit → Nat
  | .minute => 60
  | .hour => 24

/-- The length of a unit in microseconds. -/
def length : IntervalUnit → Nat
  | .minute => 60000000
  | .hour => 3600000000

def phrase : IntervalUnit → Nat → Phrase
  | .minute => .minutes
  | .hour => .hours

/-- How many units of a cycle lie before a moment. -/
def place : IntervalUnit → Moment → Nat
  | .minute, moment => moment.minute
  | .hour, moment => moment.hour

/-- Moments at which a unit begins. -/
def Begins : IntervalUnit → Moment → Prop
  | .minute, moment => moment.IsWholeMinute
  | .hour, moment => moment.IsWholeMinute ∧ moment.minute = 0

instance (unit : IntervalUnit) (moment : Moment) : Decidable (unit.Begins moment) :=
  match unit with
  | .minute => inferInstanceAs (Decidable moment.IsWholeMinute)
  | .hour => inferInstanceAs (Decidable (_ ∧ _))

/-- The units from a run to the next one: `n` of them, or as many as are left of the cycle. -/
def gap (unit : IntervalUnit) (n : Nat) (run : Moment) : Nat :=
  if unit.place run + n < unit.cycle then n else unit.cycle - unit.place run

/-- How many units lie before a moment, from the calendar's first midnight on. -/
def index (unit : IntervalUnit) (moment : Moment) : Nat :=
  moment.microseconds / unit.length

variable {unit : IntervalUnit} {moment run later : Moment} {n : Nat}

theorem index_mod_cycle : unit.index moment % unit.cycle = unit.place moment := by
  have := moment.hour_lt
  have := moment.minute_lt
  have := moment.second_lt
  have := moment.microsecond_lt
  cases unit <;> simp only [index, cycle, length, place, Moment.microseconds] <;> omega

theorem Begins.microseconds_eq (begins : unit.Begins moment) :
    moment.microseconds = unit.index moment * unit.length := by
  cases unit with
  | minute =>
      obtain ⟨second, microsecond⟩ := begins
      simp only [index, length, Moment.microseconds, second, microsecond]
      omega
  | hour =>
      obtain ⟨⟨second, microsecond⟩, minute⟩ := begins
      simp only [index, length, Moment.microseconds, second, microsecond, minute]
      omega

theorem Begins.lt_iff (begins : unit.Begins run) (beginsLater : unit.Begins later) :
    run < later ↔ unit.index run < unit.index later := by
  have positive : 0 < unit.length := by cases unit <;> decide
  rw [Moment.lt_iff_microseconds, begins.microseconds_eq, beginsLater.microseconds_eq]
  exact Nat.mul_lt_mul_right positive

/-- No unit is left out between two moments. -/
theorem exists_begins (run later : Moment) {index : Nat} (behind : unit.index run < index)
    (bound : index ≤ unit.index later) :
    ∃ moment, unit.Begins moment ∧ unit.index moment = index := by
  have runMicroseconds := run.microseconds_eq
  have laterMicroseconds := later.microseconds_eq
  have laterSecond := later.second_lt
  have laterMicrosecond := later.microsecond_lt
  cases unit with
  | minute =>
      simp only [IntervalUnit.index, length] at behind bound
      obtain ⟨moment, whole, same⟩ : ∃ moment : Moment, moment.IsWholeMinute ∧
          moment.microseconds = index * 60000000 :=
        Moment.exists_wholeMinute run later (by omega) (by omega)
      refine ⟨moment, whole, ?_⟩
      simp only [IntervalUnit.index, length, same]
      omega
  | hour =>
      simp only [IntervalUnit.index, length] at behind bound
      obtain ⟨moment, whole, same⟩ : ∃ moment : Moment, moment.IsWholeMinute ∧
          moment.microseconds = 60 * index * 60000000 :=
        Moment.exists_wholeMinute run later (by omega) (by omega)
      have minuteLt := moment.minute_lt
      have onTheHour : moment.minute = 0 := by
        have parts : moment.microseconds = _ := rfl
        simp only [Moment.microseconds, whole.1, whole.2] at parts same
        omega
      refine ⟨moment, ⟨whole, onTheHour⟩, ?_⟩
      simp only [IntervalUnit.index, length, same]
      omega

/-- A multiple of `n` in a later place, of the same cycle or a later one, is at least the gap away. -/
theorem index_add_gap_le (divides : n ∣ unit.place run) (dividesLater : n ∣ unit.place later)
    (behind : unit.index run < unit.index later) :
    unit.index run + unit.gap n run ≤ unit.index later := by
  rw [← index_mod_cycle] at divides dividesLater
  rw [gap, ← index_mod_cycle]
  generalize unit.index run = first at *
  generalize unit.index later = second at *
  have far (further : first % unit.cycle < second % unit.cycle) :
      n ≤ second % unit.cycle - first % unit.cycle :=
    Nat.le_of_dvd (Nat.sub_pos_of_lt further) (Nat.dvd_sub dividesLater divides)
  by_cases within : first % unit.cycle + n < unit.cycle
  · rw [if_pos within]
    cases unit <;> simp only [cycle] at * <;> omega
  · rw [if_neg within]
    cases unit <;> simp only [cycle] at * <;> omega

/-! Runs -/

theorem gap_pos (unit : IntervalUnit) (run : Moment) (least : 1 ≤ n) : 0 < unit.gap n run := by
  have bound : unit.place run < unit.cycle := by
    rw [← index_mod_cycle]
    exact Nat.mod_lt _ (by cases unit <;> decide)
  unfold gap
  split <;> omega

theorem dvd_place_of_gap (divides : n ∣ unit.place run)
    (reached : unit.index later = unit.index run + unit.gap n run) : n ∣ unit.place later := by
  rw [← index_mod_cycle] at divides ⊢
  rw [gap, ← index_mod_cycle] at reached
  rw [reached]
  by_cases within : unit.index run % unit.cycle + n < unit.cycle
  · rw [if_pos within]
    have sum : (unit.index run + n) % unit.cycle = unit.index run % unit.cycle + n := by
      cases unit <;> simp only [cycle] at * <;> omega
    exact sum ▸ Nat.dvd_add divides (Nat.dvd_refl n)
  · rw [if_neg within]
    have whole : (unit.index run + (unit.cycle - unit.index run % unit.cycle)) % unit.cycle = 0 := by
      cases unit <;> simp only [cycle] at * <;> omega
    exact whole ▸ Nat.dvd_zero n

/-- Timetables that run at every `n`-th unit of each cycle. -/
structure Steps (unit : IntervalUnit) (n : Nat) (table : Timetable) : Prop where
  ordered : table.Ordered
  runsAt_iff : ∀ moment, table.RunsAt moment ↔ unit.Begins moment ∧ n ∣ unit.place moment

variable {table : Timetable}

theorem Steps.next?_eq_some_iff (steps : unit.Steps n table) (least : 1 ≤ n)
    (runsAt : table.RunsAt run) :
    table.next? run = some later ↔ unit.Begins later ∧
      unit.index later = unit.index run + unit.gap n run ∧
      later.date.ordinal ≤ (searchEnd run).ordinal := by
  obtain ⟨begins, divides⟩ := (steps.runsAt_iff run).mp runsAt
  have positive := gap_pos unit run least
  rw [Timetable.next?_eq_some_iff steps.ordered]
  constructor
  · rintro ⟨runsLater, behind, earliest, within⟩
    obtain ⟨beginsLater, dividesLater⟩ := (steps.runsAt_iff later).mp runsLater
    have reached := index_add_gap_le divides dividesLater ((begins.lt_iff beginsLater).mp behind)
    -- The moment that is a gap away runs as well, so the next run is not later than it.
    obtain ⟨moment, beginsMoment, same⟩ :=
      exists_begins run later (Nat.lt_add_of_pos_right positive) reached
    have runsMoment := (steps.runsAt_iff moment).mpr ⟨beginsMoment, dvd_place_of_gap divides same⟩
    have notLater := earliest moment runsMoment ((begins.lt_iff beginsMoment).mpr (by omega))
    have bound := (beginsMoment.lt_iff beginsLater).not.mp (not_lt.mpr notLater)
    exact ⟨beginsLater, by omega, within⟩
  · rintro ⟨beginsLater, reached, within⟩
    refine ⟨(steps.runsAt_iff later).mpr ⟨beginsLater, dvd_place_of_gap divides reached⟩,
      (begins.lt_iff beginsLater).mpr (by omega), fun other runsOther behind => ?_, within⟩
    obtain ⟨beginsOther, dividesOther⟩ := (steps.runsAt_iff other).mp runsOther
    have far := index_add_gap_le divides dividesOther ((begins.lt_iff beginsOther).mp behind)
    exact not_lt.mp ((beginsOther.lt_iff beginsLater).not.mpr (by omega))

theorem since_eq_of_index {gap : Nat} (begins : unit.Begins run) (beginsLater : unit.Begins later)
    (reached : unit.index later = unit.index run + gap) :
    later.since run = gap * unit.length := by
  rw [Moment.since, begins.microseconds_eq, beginsLater.microseconds_eq, reached, Nat.add_mul]
  push_cast
  omega

theorem Steps.runs_isChain (steps : unit.Steps n table) (least : 1 ≤ n) (count : Nat)
    (start : Moment) : (table.runs count start).IsChain fun run later =>
      later.since run = unit.gap n run * unit.length := by
  refine Timetable.runs_isChain steps.ordered fun run later runsAt found => ?_
  obtain ⟨beginsLater, reached, _⟩ := (steps.next?_eq_some_iff least runsAt).mp found
  exact since_eq_of_index ((steps.runsAt_iff run).mp runsAt).1 beginsLater reached

theorem gap_of_dvd (even : n ∣ unit.cycle) (divides : n ∣ unit.place run) : unit.gap n run = n := by
  have bound : unit.place run < unit.cycle := by
    rw [← index_mod_cycle]
    exact Nat.mod_lt _ (by cases unit <;> decide)
  have rest : n ≤ unit.cycle - unit.place run :=
    Nat.le_of_dvd (Nat.sub_pos_of_lt bound) (Nat.dvd_sub even divides)
  unfold gap
  split <;> omega

/-- Two midnights, with days between them in which every schedule of an interval runs. -/
def newYear : Moment := (Moment.ofIso? "2000-01-01T00:00:00".toList).get (by decide)

def weekLater : Moment := (Moment.ofIso? "2000-01-08T00:00:00".toList).get (by decide)

theorem year_le_of_le (ordered : run ≤ later) : run.date.year ≤ later.date.year := by
  rcases Moment.date_lt_or_eq_of_le ordered with earlier | ⟨same, _⟩
  · exact Date.year_le_of_ordinal_le earlier.le
  · rw [same]

/-- Some runs are the last one of a cycle and the first one of the next. -/
theorem Steps.exists_restart (steps : unit.Steps n table) (least : 1 ≤ n) (bound : n < unit.cycle) :
    ∃ start run later, table.runs 2 start = [run, later] ∧ n ∣ unit.place run ∧
      later.since run = ((unit.cycle - unit.place run : Nat) : Int) * unit.length := by
  have midnight : unit.index newYear % unit.cycle = 0 := by cases unit <;> decide +kernel
  have room : unit.index newYear + 3 * unit.cycle ≤ unit.index weekLater := by
    cases unit <;> decide +kernel
  have begins : unit.Begins newYear := by cases unit <;> decide
  have beginsWeek : unit.Begins weekLater := by cases unit <;> decide
  let last := n * ((unit.cycle - 1) / n)
  have lastLt : last ≤ unit.cycle - 1 := Nat.mul_div_le _ _
  have lastGe : unit.cycle - 1 < last + n := Nat.lt_mul_div_succ _ least
  obtain ⟨run, beginsRun, indexRun⟩ : ∃ run, unit.Begins run ∧
      unit.index run = unit.index newYear + unit.cycle + last :=
    exists_begins newYear weekLater (by omega) (by omega)
  obtain ⟨later, beginsLater, indexLater⟩ : ∃ later, unit.Begins later ∧
      unit.index later = unit.index newYear + 2 * unit.cycle :=
    exists_begins newYear weekLater (by omega) (by omega)
  have place : unit.place run = last := by
    rw [← index_mod_cycle, indexRun, Nat.add_right_comm, Nat.add_mod_right, Nat.add_mod, midnight,
      Nat.zero_add, Nat.mod_mod, Nat.mod_eq_of_lt (by omega)]
  have gap : unit.gap n run = unit.cycle - unit.place run := if_neg (by omega)
  have runsAt : table.RunsAt run :=
    (steps.runsAt_iff run).mpr ⟨beginsRun, place ▸ Nat.dvd_mul_right _ _⟩
  have near : later.date.year ≤ run.date.year + searchYears :=
    calc later.date.year
      _ ≤ weekLater.date.year := year_le_of_le (not_lt.mp fun behind =>
          absurd ((beginsWeek.lt_iff beginsLater).mp behind) (by omega))
      _ = newYear.date.year := by decide
      _ ≤ run.date.year := year_le_of_le ((begins.lt_iff beginsRun).mpr (by omega)).le
      _ ≤ run.date.year + searchYears := Nat.le_add_right _ _
  have next : table.next? run = some later := (steps.next?_eq_some_iff least runsAt).mpr
    ⟨beginsLater, by omega, ordinal_le_searchEnd_of_year near⟩
  obtain ⟨before, found⟩ := Timetable.exists_next?_eq runsAt.whole
    ((begins.lt_iff beginsRun).mpr (by omega))
  refine ⟨before, run, later, ?_, place ▸ Nat.dvd_mul_right _ _,
    since_eq_of_index beginsRun beginsLater (by omega)⟩
  rw [Timetable.runs_succ_of_some (found table steps.ordered runsAt),
    Timetable.runs_succ_of_some next]
  rfl

/-- All runs are `n` units apart exactly if `n` divides the cycle. -/
theorem Steps.exact_iff (steps : unit.Steps n table) (least : 1 ≤ n) (bound : n < unit.cycle) :
    (∀ count start, (table.runs count start).IsChain fun (run later : Moment) =>
      later.since run = n * unit.length) ↔ n ∣ unit.cycle := by
  constructor
  · intro exact
    obtain ⟨start, run, later, runs, divides, since⟩ := steps.exists_restart least bound
    have chain := exact 2 start
    rw [runs, List.isChain_pair, since] at chain
    have rest : unit.cycle - unit.place run = n := by
      cases unit <;> simp only [length] at chain <;> omega
    have split := Nat.dvd_add (rest ▸ Nat.dvd_refl n : n ∣ unit.cycle - unit.place run) divides
    rwa [Nat.sub_add_cancel (by omega)] at split
  · intro even count start
    refine Timetable.runs_isChain steps.ordered fun run later runsAt found => ?_
    obtain ⟨beginsLater, reached, _⟩ := (steps.next?_eq_some_iff least runsAt).mp found
    obtain ⟨begins, divides⟩ := (steps.runsAt_iff run).mp runsAt
    rw [gap_of_dvd even divides] at reached
    exact since_eq_of_index begins beginsLater reached

theorem exists_steps (least : 1 ≤ n) (bound : n < unit.cycle) :
    ∃ table, unit.Steps n table ∧ ∀ count start,
      nextRuns (unit.phrase n).line.text count .five start = table.runs count.toNat start := by
  have month (moment : Moment) : Term.any.Names .month moment.date.month :=
    Term.names_any.mpr ⟨moment.date.month_pos, moment.date.month_le⟩
  have minuteLe (moment : Moment) : moment.minute ≤ Field.minute.greatest :=
    Nat.le_of_lt_succ moment.minute_lt
  have hourLe (moment : Moment) : moment.hour ≤ Field.hour.greatest :=
    Nat.le_of_lt_succ moment.hour_lt
  cases unit with
  | minute =>
      have fits : (Term.every n).Fits .minute :=
        ⟨Int.ofNat_le.mpr least, Int.ofNat_le.mpr (Nat.le_of_lt_succ bound)⟩
      obtain ⟨table, ordered, runs, runsAt⟩ := Line.Fits.exists_timetable
        (.every n) .any .any ⟨fits, trivial, trivial, trivial, trivial⟩
        (List.forall_mem_cons.mpr ⟨Term.hasProperItems_every _ fits, by decide⟩)
      refine ⟨table, ⟨ordered, fun moment => ?_⟩, runs⟩
      rw [runsAt, Term.names_every rfl (minuteLe moment)]
      exact ⟨fun ⟨whole, divides, _⟩ => ⟨whole, divides⟩, fun ⟨whole, divides⟩ =>
        ⟨whole, divides, Term.names_any.mpr ⟨Nat.zero_le _, hourLe moment⟩, month moment⟩⟩
  | hour =>
      have fits : (Term.every n).Fits .hour :=
        ⟨Int.ofNat_le.mpr least, Int.ofNat_le.mpr (Nat.le_of_lt_succ bound)⟩
      obtain ⟨table, ordered, runs, runsAt⟩ := Line.Fits.exists_timetable
        (.value 0) (.every n) .any
        ⟨Term.value_fits (by decide) (by decide), fits, trivial, trivial, trivial⟩
        (List.forall_mem_cons.mpr ⟨by decide,
          List.forall_mem_cons.mpr ⟨Term.hasProperItems_every _ fits, by decide⟩⟩)
      refine ⟨table, ⟨ordered, fun moment => ?_⟩, runs⟩
      have onTheHour : (Term.value 0).Names .minute moment.minute ↔ moment.minute = 0 :=
        Term.names_value (k := 0)
      rw [runsAt, Term.names_every rfl (hourLe moment), onTheHour]
      exact ⟨fun ⟨whole, first, divides, _⟩ => ⟨⟨whole, first⟩, divides⟩,
        fun ⟨⟨whole, first⟩, divides⟩ => ⟨whole, first, divides, month moment⟩⟩

/-! Phrases -/

def fault : IntervalUnit → RangeFault
  | .minute => .minuteCount
  | .hour => .hourCount

theorem exists_rule (unit : IntervalUnit) :
    ∃ rule ∈ rules, rule.pattern = everyCount unit.name ∧ ∀ captures, rule.sense captures =
      (boundedNumber (captures.text .count) 1 (unit.cycle - 1) unit.fault).map unit.phrase := by
  have inRules {rule : Rule} (member : rule ∈ intervals) : rule ∈ rules := by
    simp only [rules, List.mem_append]
    tauto
  cases unit with
  | minute =>
      refine ⟨_, inRules List.mem_cons_self, rfl, fun captures => ?_⟩
      cases boundedNumber (captures.text .count) 1 59 .minuteCount <;> rfl
  | hour =>
      refine ⟨_, inRules (List.mem_cons_of_mem _ List.mem_cons_self), rfl, fun captures => ?_⟩
      cases boundedNumber (captures.text .count) 1 23 .hourCount <;> rfl

end IntervalUnit

/-- A schedule that is taken to say an interval exactly runs every `n` units of a cycle and starts
anew with the next one. So all of its runs are `n` units apart only if `n` divides the cycle. -/
theorem interval_runs (unit : IntervalUnit) {text schedule : List Char} {captures : Captures Slot}
    {reading : Reading} (read : (everyCount unit.name).whole? text = some captures)
    (answered : recognize text = .ok (some reading))
    (succeeded : reading.schedule? = some schedule) :
    reading.approximate = false ∧ ∃ n, number (captures.text .count) = .ok n ∧ 1 ≤ n ∧
      n < unit.cycle ∧
      (∀ count start, (nextRuns schedule count .five start).IsChain fun (run later : Moment) =>
        later.since run = unit.gap n run * unit.length) ∧
      ((∀ count start, (nextRuns schedule count .five start).IsChain fun (run later : Moment) =>
        later.since run = n * unit.length) ↔ n ∣ unit.cycle) := by
  obtain ⟨rule, inRules, pattern, sense⟩ := unit.exists_rule
  have readRule : rule.reading? text = some (rule.sense captures) := by
    rw [Rule.reading?, pattern, read]
    rfl
  obtain ⟨told, ofSense, same⟩ := exists_readingOf_of_recognize inRules readRule answered
  have sameSchedule : told.plain.schedule? = reading.plain.schedule? := congrArg _ same
  have sameFlag : told.plain.approximate = reading.plain.approximate := congrArg _ same
  rw [sense] at ofSense
  cases counted : boundedNumber (captures.text .count) 1 (unit.cycle - 1) unit.fault with
  | error fault =>
      rw [counted] at ofSense
      cases fault with
      | numeralTooLong tooLong => cases ofSense
      | outOfRange fault =>
          cases ofSense
          cases sameSchedule.trans succeeded
  | ok n =>
      rw [counted] at ofSense
      cases ofSense
      obtain ⟨least, greatest⟩ := bounds_of_boundedNumber counted
      obtain ⟨m, isNumber, inRange⟩ := bind_eq_ok_iff.mp counted
      have bound : n < unit.cycle := by
        have positive : 0 < unit.cycle := by cases unit <;> decide
        omega
      obtain rfl : m = n := by
        unfold within at inRange
        split at inRange
        · exact Except.ok.inj inRange
        · cases inRange
      have ofPhrase : (unit.phrase m).reading.schedule? = some (unit.phrase m).line.text := by
        cases unit <;> rfl
      have text : (unit.phrase m).line.text = schedule :=
        Option.some.inj (ofPhrase.symm.trans (sameSchedule.trans succeeded))
      obtain ⟨table, steps, runs⟩ := unit.exists_steps least bound
      refine ⟨?_, m, isNumber, least, bound, fun count start => ?_, ?_⟩
      · refine Eq.trans sameFlag.symm ?_
        cases unit <;> rfl
      · rw [← text, runs]
        exact steps.runs_isChain least _ _
      · rw [← steps.exact_iff least bound, ← text]
        simp only [runs]
        exact ⟨fun exact count start => exact count start, fun exact count start => exact _ start⟩

theorem interval_runs_sevenHours :
    recognize "every 7 hours".toList = .ok (some (Phrase.hours 7).reading) ∧
      (Phrase.hours 7).reading.schedule? = some "0 */7 * * *".toList ∧
      (Phrase.hours 7).reading.approximate = false ∧
      (∀ count start, (nextRuns "0 */7 * * *".toList count .five start).IsChain
        fun (run later : Moment) =>
          later.since run = (if run.hour + 7 < 24 then 7 else 24 - run.hour : Nat) * 3600000000) ∧
      ¬ ∀ count start, (nextRuns "0 */7 * * *".toList count .five start).IsChain
        fun (run later : Moment) => later.since run = 7 * 3600000000 := by
  have answered : recognize "every 7 hours".toList = .ok (some (Phrase.hours 7).reading) := by
    decide +kernel
  obtain ⟨captures, read⟩ := Option.isSome_iff_exists.mp
    (by decide : ((everyCount "hour").whole? "every 7 hours".toList).isSome)
  obtain ⟨exact, n, counted, _, _, gaps, even⟩ := interval_runs .hour read answered rfl
  have isSeven : n = 7 := by
    have seven : ((everyCount "hour").whole? "every 7 hours".toList).map
        (fun captures => number (captures.text .count)) = some (.ok 7) := by decide
    rw [read, Option.map_some, counted] at seven
    exact Except.ok.inj (Option.some.inj seven)
  subst isSeven
  exact ⟨answered, rfl, exact, gaps, even.not.mpr (by decide)⟩

/-- After the last run of an hour comes the first one of the next, four minutes later. -/
theorem nextRuns_sevenMinutes_restart :
    ((everyCount "minute").whole? "every 7 minutes".toList).isSome ∧
      recognize "every 7 minutes".toList = .ok (some (Phrase.minutes 7).reading) ∧
      (Phrase.minutes 7).reading.approximate = false ∧
      (Phrase.minutes 7).reading.schedule? = some "*/7 * * * *".toList ∧
      nextRuns "*/7 * * * *".toList 2 .five
          ((Moment.ofIso? "2026-10-19T10:50:00".toList).get (by decide)) =
        [(Moment.ofIso? "2026-10-19T10:56:00".toList).get (by decide),
          (Moment.ofIso? "2026-10-19T11:00:00".toList).get (by decide)] ∧
      ¬ (nextRuns "*/7 * * * *".toList 2 .five
          ((Moment.ofIso? "2026-10-19T10:50:00".toList).get (by decide))).IsChain
        fun (run later : Moment) => later.since run = 7 * 60000000 := by
  decide +kernel

end Recurrence
