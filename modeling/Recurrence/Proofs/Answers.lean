import Recurrence.Proofs.Phrase.Canonical
import Recurrence.Proofs.Schedules

namespace Recurrence

/-! What an answer depends on: the canonical form of the text, and the time of day that is told
of the text as it was written. The time counts only where no rule reads the canonical form and
its loose parts make up a schedule. -/

open Crontab Phrase

/-- What counts of an answer: its schedule, and what is said about it. -/
abbrev Substance := List Char × Confidence × Bool × Option (List Char)

def Reading.substance? (reading : Reading) : Option Substance :=
  reading.schedule?.map fun schedule =>
    (schedule, reading.confidence, reading.approximate, reading.warning)

def substance? (answer : Except Fault Reading) : Option Substance :=
  answer.toOption.bind Reading.substance?

def toldTime? (text : List Char) : Option Clock :=
  (mentionedTime text).toOption.join

def looseSubstance? (phrase : List Char) (format : Format) (clock : Clock) : Option Substance :=
  match readLoosely phrase clock with
  | .ok (some reading) => (reading.inFormat format).substance?
  | _ => none

/-- The substance of the answer to a text that has a canonical form and a time of day. -/
def substanceOf? (phrase : List Char) (told : Option Clock) (format : Format) : Option Substance :=
  match recognize phrase with
  | .ok (some reading) => (reading.inFormat format).substance?
  | .ok none => told.bind (looseSubstance? phrase format)
  | .error _ => none

/-- Whether the loose parts of a phrase make up a schedule at a time of day. -/
def OffersSchedule (phrase : List Char) : Prop :=
  findWeekdays phrase ≠ [] ∨
    match dayInterval? phrase with
    | some digits => ∃ n, Text.readDigits digits = .ok n ∧ 1 ≤ n ∧ n ≤ 31
    | none => dailyCue.occurs phrase = true

/-! Answers -/

theorem recognize_nil : recognize [] = .ok none := by
  rw [recognize, show rules.findSome? (·.reading? []) = none from rfl]

theorem not_offersSchedule_nil : ¬ OffersSchedule [] := by
  have noInterval : dayInterval? [] = none := by decide
  rw [OffersSchedule, noInterval]
  decide

theorem looseSubstance?_eq_none {phrase : List Char} (nothing : ¬ OffersSchedule phrase)
    (format : Format) (clock : Clock) : looseSubstance? phrase format clock = none := by
  obtain ⟨unnamed, unoffered⟩ := not_or.mp nothing
  unfold looseSubstance? readLoosely
  rw [if_neg unnamed]
  cases interval : dayInterval? phrase with
  | none =>
      rw [interval] at unoffered
      simp only [unoffered, if_false]
  | some digits =>
      rw [interval] at unoffered
      cases number : Text.readDigits digits with
      | error fault => simp [dayIntervalReading, number, Except.map]
      | ok n =>
          have outOfRange : ¬ (1 ≤ n ∧ n ≤ 31) := fun bounds => unoffered ⟨n, number, bounds⟩
          simp only [dayIntervalReading, number, Except.map, if_neg outOfRange]
          cases format <;> rfl

/-- A phrase that offers a schedule is read loosely at every time, for the same days. -/
theorem exists_days_of_offersSchedule {phrase : List Char} (offers : OffersSchedule phrase) :
    ∃ dayOfMonth dayOfWeek : Term, dayOfMonth.Fits .dayOfMonth ∧ dayOfWeek.Fits .dayOfWeek ∧
      ∃ said, ∀ format clock, looseSubstance? phrase format clock =
        some ((lineAt clock dayOfMonth .any dayOfWeek).textIn format, said) := by
  have formats {reading : Reading} {line : Line} (schedules : reading.outcome = .ok line.text)
      (format : Format) : (reading.inFormat format).substance? =
        some (line.textIn format, reading.confidence, reading.approximate, reading.warning) := by
    cases format <;> simp [Reading.substance?, Reading.schedule?, Reading.inFormat,
      Reading.withSeconds, schedules, Line.textIn, Except.map, Except.toOption]
  by_cases named : findWeekdays phrase = []
  · cases interval : dayInterval? phrase with
    | none =>
        have cue : dailyCue.occurs phrase = true := by
          simpa [OffersSchedule, named, interval] using offers
        refine ⟨.any, .any, trivial, trivial, (.medium, false, none), fun format clock => ?_⟩
        simp only [looseSubstance?, readLoosely, named, interval, cue, ne_eq, not_true_eq_false,
          if_false, if_true]
        exact formats rfl format
    | some digits =>
        obtain ⟨n, number, bounds⟩ : ∃ n, Text.readDigits digits = .ok n ∧ 1 ≤ n ∧ n ≤ 31 := by
          simpa [OffersSchedule, named, interval] using offers
        refine ⟨.every n, .any, ⟨Int.ofNat_le.mpr bounds.1, Int.ofNat_le.mpr bounds.2⟩, trivial,
          (.medium, true, some (dayStepWarning n (stepDays n))), fun format clock => ?_⟩
        simp only [looseSubstance?, readLoosely, named, interval, dayIntervalReading, number,
          Except.map, if_pos bounds, ne_eq, not_true_eq_false, if_false]
        exact formats rfl format
  · have fits := (weekdays_line_fits named (show Clock.midnight.InRange by decide)).dayOfWeek
    refine ⟨.any, _, trivial, fits, (.medium, false, none), fun format clock => ?_⟩
    simp only [looseSubstance?, readLoosely, ne_eq, named, not_false_eq_true, if_true]
    exact formats rfl format

theorem substance?_answer_looseInquiry (teller : TimeTeller) (text phrase : List Char)
    (format : Format) :
    substance? (((looseInquiry text phrase).map fun reading =>
        (reading.map (·.inFormat format)).getD (unreadable text)).answer teller) =
      (teller text).toOption.join.bind (looseSubstance? phrase format) := by
  simp only [looseInquiry, Inquiry.map, Inquiry.answer]
  cases told : teller text with
  | error fault => rfl
  | ok found =>
      cases found with
      | none => rfl
      | some clock =>
          simp only [bind, Except.bind, Except.toOption, Option.join_some, Option.bind_some,
            looseSubstance?]
          cases loose : readLoosely phrase clock with
          | error fault => rfl
          | ok found => cases found <;> rfl

/-- The substance of an answer depends on the canonical form and the told time alone. -/
theorem substance?_interpret (text : List Char) (format : Format) :
    substance? (interpret text format) = substanceOf? (canonical text) (toldTime? text) format := by
  unfold interpret interpretWith inquire substanceOf?
  split
  · -- A blank text is refused before it is read, and its empty canonical form says nothing either.
    rename_i blank
    rw [canonical_of_blank (List.all_eq_true.mp blank), recognize_nil]
    have nothing := looseSubstance?_eq_none not_offersSchedule_nil format
    cases toldTime? text with
    | none => rfl
    | some clock => exact (nothing clock).symm
  · cases recognized : recognize (canonical text) with
    | error fault => rfl
    | ok found =>
        cases found with
        | some reading => rfl
        | none => exact substance?_answer_looseInquiry mentionedTime text (canonical text) format

/-! Times that lead to the same answer -/

theorem lineAt_textIn_injective {first second : Clock} (firstInRange : first.InRange)
    (secondInRange : second.InRange) {dayOfMonth dayOfWeek : Term}
    (inMonth : dayOfMonth.Fits .dayOfMonth) (inWeek : dayOfWeek.Fits .dayOfWeek) {format : Format}
    (same : (lineAt first dayOfMonth .any dayOfWeek).textIn format =
      (lineAt second dayOfMonth .any dayOfWeek).textIn format) : first = second := by
  have firstFits : (lineAt first dayOfMonth .any dayOfWeek).Fits :=
    lineAt_fits firstInRange inMonth trivial inWeek
  have secondFits : (lineAt second dayOfMonth .any dayOfWeek).Fits :=
    lineAt_fits secondInRange inMonth trivial inWeek
  have words := firstFits.words_textIn format
  rw [same, secondFits.words_textIn format] at words
  have terms := List.append_cancel_left words
  simp only [Line.terms, lineAt, List.map_cons, List.cons.injEq, Term.value, Term.text,
    List.map_nil, Text.joinWith, List.intercalate_singleton] at terms
  obtain ⟨minutes, hours, _⟩ := terms
  obtain ⟨firstHour, firstMinute⟩ := first
  obtain ⟨secondHour, secondMinute⟩ := second
  rw [Clock.mk.injEq]
  exact ⟨Text.signed_injective hours.symm, Text.signed_injective minutes.symm⟩

theorem recognize_eq_none_iff {phrase : List Char} :
    recognize phrase = .ok none ↔ ∀ rule ∈ rules, rule.pattern.whole? phrase = none := by
  rw [← recognizeBy_rules, recognizeBy_eq_none_iff]

theorem recognize_ne_none_iff {phrase : List Char} :
    recognize phrase ≠ .ok none ↔ ∃ rule ∈ rules, (rule.pattern.whole? phrase).isSome := by
  rw [ne_eq, recognize_eq_none_iff]
  simp [Option.isSome_iff_ne_none]

theorem toldTime?_inRange {text : List Char} {clock : Clock} (told : toldTime? text = some clock) :
    clock.InRange := by
  unfold toldTime? at told
  cases telling : mentionedTime text with
  | error fault => simp [telling, Except.toOption] at told
  | ok found =>
      simp only [telling, Except.toOption, Option.join_some] at told
      exact mentionedTime_inRange text clock (told ▸ telling)

theorem bind_looseSubstance?_eq_iff {phrase : List Char} {first second : Option Clock}
    (firstInRange : ∀ clock, first = some clock → clock.InRange)
    (secondInRange : ∀ clock, second = some clock → clock.InRange) (format : Format) :
    first.bind (looseSubstance? phrase format) = second.bind (looseSubstance? phrase format) ↔
      first = second ∨ ¬ OffersSchedule phrase := by
  by_cases offers : OffersSchedule phrase
  · obtain ⟨dayOfMonth, dayOfWeek, inMonth, inWeek, said, read⟩ :=
      exists_days_of_offersSchedule offers
    rw [or_iff_left (not_not_intro offers)]
    cases first with
    | none => cases second <;> simp [read]
    | some firstClock =>
        cases second with
        | none => simp [read]
        | some secondClock =>
            simp only [Option.bind_some, read, Option.some.injEq, Prod.mk.injEq, and_true]
            refine ⟨lineAt_textIn_injective (firstInRange _ rfl) (secondInRange _ rfl) inMonth
              inWeek, fun same => by rw [same]⟩
  · refine iff_of_true ?_ (Or.inr offers)
    have nothing := looseSubstance?_eq_none offers format
    cases first <;> cases second <;> simp [nothing]

/-- Answers to texts with the same canonical form differ exactly if no rule reads it, its loose
parts make up a schedule, and the times of day that are told of the texts differ. -/
theorem substance?_interpret_eq_iff {first second : List Char}
    (same : canonical first = canonical second) (format : Format) :
    substance? (interpret first format) = substance? (interpret second format) ↔
      (∃ rule ∈ rules, (rule.pattern.whole? (canonical first)).isSome) ∨
        toldTime? first = toldTime? second ∨ ¬ OffersSchedule (canonical first) := by
  rw [substance?_interpret, substance?_interpret, ← same, ← recognize_ne_none_iff]
  by_cases unread : recognize (canonical first) = .ok none
  · simp only [substanceOf?, unread, ne_eq, not_true_eq_false, false_or]
    exact bind_looseSubstance?_eq_iff (fun _ => toldTime?_inRange) (fun _ => toldTime?_inRange)
      format
  · refine iff_of_true ?_ (Or.inl unread)
    unfold substanceOf?
    split
    · rfl
    · rename_i recognized
      exact absurd recognized unread
    · rfl

theorem substance?_interpret_eq_iff_sameTime :
    substance? (interpret "Mondays  AT 9PM".toList .six) =
      substance? (interpret "mondays at 9 pm".toList .six) :=
  (substance?_interpret_eq_iff (by decide +kernel) .six).mpr (.inr (.inl (by decide +kernel)))

/-- The canonical form alone does not determine the answer. -/
theorem substance?_interpret_oclock :
    canonical "monday at 9o'clock".toList = canonical "monday at 9".toList ∧
      substance? (interpret "monday at 9o'clock".toList .five) ≠
        substance? (interpret "monday at 9".toList .five) := by
  decide +kernel

end Recurrence
