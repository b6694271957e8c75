import Recurrence.Console.Report
import Recurrence.Proofs.Calendar.Label
import Recurrence.Proofs.Console.Display
import Recurrence.Proofs.Console.Table
import Recurrence.Proofs.Crontab.Messages
import Recurrence.Proofs.Crontab.Walk

namespace Recurrence.Console

/-! The commands about an expression. All of them judge it alike, whatever layout the environment
asks for, and the runs that are shown are the next ones, numbered. -/

open Crontab

variable {expression : Argument} {environment : List (List Char × List Char)} {now : Moment}

/-! Arguments -/

/-- Arguments that cannot be taken for options. -/
def IsPlain (argument : Argument) : Prop :=
  argument.head? ≠ some '-'

instance (argument : Argument) : Decidable (IsPlain argument) :=
  inferInstanceAs (Decidable (_ ≠ _))

theorem scan?_plain (forms : List OptionForm) (mixed : Bool) {argument : Argument}
    (plain : IsPlain argument) (rest : List Argument) :
    scan? forms mixed (argument :: rest) =
      if mixed then (scan? forms mixed rest).map (·.withArgument argument)
      else some ⟨[], argument :: rest⟩ := by
  have notHyphens : argument ≠ ['-', '-'] := fun same => plain (by rw [same]; rfl)
  have notOption : isOption argument = false := by
    rw [isOption, beq_eq_false_iff_ne.mpr plain, Bool.false_and]
  rw [scan?, if_neg notHyphens, if_neg (Bool.eq_false_iff.mp notOption)]

/-- The commands that need no more than an expression. -/
def expressionCommands : List String := ["validate", "explain", "next"]

theorem ofArguments?_of_name {name : Argument} (plain : IsPlain name) (arguments : List Argument) :
    Command.ofArguments? (name :: arguments) = Command.ofName? name arguments := by
  simp only [Command.ofArguments?, scan?_plain _ _ plain]
  rfl

theorem scan?_only (forms : List OptionForm) (plain : IsPlain expression) :
    scan? forms true [expression] = some ⟨[], [expression]⟩ := by
  rw [scan?_plain _ _ plain]
  rfl

theorem ofArguments?_validate (plain : IsPlain expression) :
    Command.ofArguments? ["validate".toList, expression] = some (.validate expression none) := by
  have read : Command.ofName? "validate".toList [expression] =
      (scan? [Command.formatOption] true [expression]).bind fun scanned =>
        (Command.only? scanned).bind fun expression =>
          (Command.format? scanned).bind fun format => some (.validate expression format) := rfl
  rw [ofArguments?_of_name (by decide), read, scan?_only _ plain]
  rfl

theorem ofArguments?_explain (plain : IsPlain expression) :
    Command.ofArguments? ["explain".toList, expression] = some (.explain expression false) := by
  have read : Command.ofName? "explain".toList [expression] =
      (scan? [⟨.fields, "--fields", none, false⟩] true [expression]).bind fun scanned =>
        (Command.only? scanned).bind fun expression =>
          some (.explain expression (scanned.has .fields)) := rfl
  rw [ofArguments?_of_name (by decide), read, scan?_only _ plain]
  rfl

theorem ofName?_next (arguments : List Argument) : Command.ofName? "next".toList arguments =
    (scan? [⟨.runs, "--count", some 'c', true⟩, Command.formatOption] true arguments).bind
      fun scanned => (Command.only? scanned).bind fun expression =>
        (Command.format? scanned).bind fun format =>
          (Command.runs? scanned).bind fun count => some (.next expression format count) := rfl

theorem ofArguments?_next (plain : IsPlain expression) :
    Command.ofArguments? ["next".toList, expression] = some (.next expression none none) := by
  rw [ofArguments?_of_name (by decide), ofName?_next, scan?_only _ plain]
  rfl

theorem ofArguments?_nextCount (plain : IsPlain expression) {countText : Argument} {count : Int}
    (read : readNumber? countText = some count) :
    Command.ofArguments? ["next".toList, expression, "--count".toList, countText] =
      some (.next expression none (some count)) := by
  have option : scan? [⟨.runs, "--count", some 'c', true⟩, Command.formatOption] true
      ["--count".toList, countText] = some ⟨[(.runs, countText)], []⟩ := rfl
  have runs : Command.runs? ⟨[(.runs, countText)], [expression]⟩ = some (some count) :=
    congrArg (Option.map some) read
  rw [ofArguments?_of_name (by decide), ofName?_next, scan?_plain _ _ plain, option]
  simp only [if_true, Option.map_some, Option.bind_some, Scanned.withArgument, runs]
  rfl

/-! Verdicts -/

/-- Naming the layout that is found anyway does not change the verdict. -/
theorem validate_detected (count : (Text.words expression).length ∈ [0, 5, 6]) (fallback : Format) :
    validate expression (some ((detectFormat expression).getD fallback)) =
      validate expression none := by
  simp only [List.mem_cons, List.not_mem_nil, or_false] at count
  rcases count with blank | five | six
  · simp only [validate, blank, if_true]
  · have detected : detectFormat expression = some .five := detectFormat_of_count five
    simp only [validate, detected]
    rfl
  · have detected : detectFormat expression = some .six := detectFormat_of_count six
    simp only [validate, detected]
    rfl

theorem expressionReport_congr {format other : Option Format}
    (same : validate expression format = validate expression other)
    (print : Verdict → List Char) :
    expressionReport expression format print = expressionReport expression other print := by
  rw [expressionReport, expressionReport, same]

/-- Every command reports on the verdict that is given without a layout. Only what is printed about
a valid expression is its own. -/
theorem exists_output (command : String) (known : command ∈ expressionCommands)
    (plain : IsPlain expression) (count : (Text.words expression).length ∈ [0, 5, 6])
    (environment : List (List Char × List Char)) (now : Moment) :
    ∃ output : Verdict → List Char, report [command.toList, expression] environment now =
      expressionReport expression none output := by
  simp only [expressionCommands, List.mem_cons, List.not_mem_nil, or_false] at known
  rcases known with rfl | rfl | rfl
  · refine ⟨validityLine, ?_⟩
    simp only [report, ofArguments?_validate plain, Command.report]
  · refine ⟨fun _ => explanation expression false, ?_⟩
    simp only [report, ofArguments?_explain plain, Command.report]
  · let defaults := Defaults.ofEnvironment environment
    refine ⟨fun _ => nextOutput expression defaults.runs
      ((detectFormat expression).getD defaults.format) now, ?_⟩
    rw [← expressionReport_congr (validate_detected count defaults.format)]
    simp only [report, ofArguments?_next plain, Command.report]
    rfl

/-! Reports -/

/-- A report that consists of one line with a complaint. -/
structure Complains (report : Report) (message : List Char) : Prop where
  exitCode : report.exitCode = 1
  output : report.output = line ("Error: ".toList ++ shown message)
  oneLine : '\n' ∉ "Error: ".toList ++ shown message
  verbatim : '\\' ∉ message → (∀ c ∈ message, movesCursor c = false) → shown message = message

/-- A report that shows runs, numbered from 1 on, or says that there are none. -/
structure ShowsRuns (report : Report) (runs : List Moment) (now : Moment) : Prop where
  exitCode : report.exitCode = 0
  few : runs.length ≤ mostRuns
  none : runs = [] → report.output = line "No upcoming runs".toList
  rows : runs ≠ [] → Table.rowsShown report.output = runs.mapIdx fun index run =>
    [Text.decimal (index + 1), run.label, run.relativeLabel now]

theorem complains_of_hasOnlySpaces {message : List Char} (onlySpaces : Text.HasOnlySpaces message) :
    Complains (.complaint message) message := by
  obtain ⟨printed, oneLine⟩ :=
    labelled_of_hasOnlySpaces "Error: " (by decide) onlySpaces
  exact ⟨rfl, printed, oneLine, shown_of_plain⟩

theorem isUnframed_of_isVisible {text : List Char} (visible : IsVisible text) :
    Table.IsUnframed text := by
  refine ⟨fun bar => ?_, fun lineBreak => ?_⟩
  · exact absurd (visible _ bar).2 (by decide)
  · exact absurd (visible _ lineBreak).1 (by decide)

theorem isLegible_runsTable (runs : List Moment) (now : Moment) :
    (runsTable runs now).IsLegible := by
  have trimmedNumber (n : Nat) : Text.trim (Text.decimal n) = Text.decimal n :=
    Text.trim_of_solid fun c member =>
      Text.isBlank_of_isPlainDigit (Text.isPlainDigit_of_mem_decimal member)
  constructor
  · intro row member
    obtain ⟨index, _, rfl⟩ := List.mem_mapIdx.mp member
    exact List.cons_ne_nil _ _
  · intro row member cell inRow
    obtain ⟨index, _, rfl⟩ := List.mem_mapIdx.mp member
    simp only [List.mem_cons, List.not_mem_nil, or_false] at inRow
    rcases inRow with number | moment | distance
    · rw [number]
      exact ⟨isUnframed_of_isVisible (isVisible_decimal _), trimmedNumber _⟩
    · rw [moment]
      exact ⟨isUnframed_of_isVisible (Moment.isVisible_label _), Moment.trim_label _⟩
    · rw [distance]
      exact ⟨isUnframed_of_isVisible (Moment.isVisible_relativeLabel _ now),
        Moment.trim_relativeLabel _ now⟩
  · intro header given
    cases given
    decide
  · intro title given
    cases given
    decide

theorem showsRuns_nextOutput (expression : List Char) (count : Int) (format : Format)
    (now : Moment) : ShowsRuns (.success (nextOutput expression count format now))
      (nextRuns expression (min count mostRuns) format now) now := by
  have few := (nextRuns_walk expression (min count mostRuns) format now).1
  refine ⟨rfl, by omega, fun empty => ?_, fun someRun => ?_⟩
  · simp only [Report.success, nextOutput, nextRunsTable?, empty]
  · cases runs : nextRuns expression (min count mostRuns) format now with
    | nil => exact absurd runs someRun
    | cons first others =>
        have drawn : nextOutput expression count format now =
            (runsTable (first :: others) now).draw := by
          simp only [nextOutput, nextRunsTable?, runs]
        rw [Report.success, drawn, Table.rowsShown_draw (isLegible_runsTable _ now)]
        rfl

theorem expressionReport_eq_ok_iff {format : Option Format} {print : Verdict → List Char}
    {printed : Report} : expressionReport expression format print = .ok printed ↔
      ∃ verdict, validate expression format = .ok verdict ∧
        verdictReport verdict print = printed := by
  unfold expressionReport
  cases validate expression format with
  | error tooLong => simp
  | ok verdict => simp

theorem expressionReport_eq_error_iff {format : Option Format} {print : Verdict → List Char}
    {fault : Fault} : expressionReport expression format print = .error fault ↔
      ∃ tooLong, EndsAtNumber expression format tooLong ∧ fault = .numeralTooLong tooLong := by
  simp only [← validate_eq_error_iff, expressionReport]
  cases validate expression format with
  | error tooLong => simp [eq_comm]
  | ok verdict => simp

theorem exists_verdict_of_isValid {format : Option Format} (valid : IsValid expression format) :
    ∃ verdict, validate expression format = .ok verdict ∧ verdict.defect = none := by
  cases checked : validate expression format with
  | error tooLong => simp [IsValid, checked, Except.map] at valid
  | ok verdict =>
      simp only [IsValid, checked, Except.map, Except.ok.injEq] at valid
      exact ⟨verdict, rfl, Option.isNone_iff_eq_none.mp valid⟩

theorem verdictReport_of_validate {verdict : Verdict}
    (checked : validate expression none = .ok verdict) (print : Verdict → List Char) :
    ((verdictReport verdict print).exitCode = 0 ↔ verdict.valid = true) ∧
      ∀ defect ∈ verdict.defect, Complains (verdictReport verdict print) defect.message := by
  obtain ⟨defect, format⟩ := verdict
  cases defect with
  | none => exact ⟨iff_of_true rfl rfl, fun defect absent => by cases absent⟩
  | some defect =>
      refine ⟨iff_of_false (by simp [verdictReport, Report.complaint]) (by simp [Verdict.valid]), ?_⟩
      intro other given
      cases given
      exact complains_of_hasOnlySpaces (hasOnlySpaces_of_validate checked)

def mondayMorning : Moment :=
  (Moment.ofIso? "2026-10-19T10:30:15".toList).get (by decide)

def sixFields : List (List Char × List Char) :=
  [("CRONSPEAK_FORMAT".toList, "6-field".toList)]

end Recurrence.Console
