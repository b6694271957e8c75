import Recurrence.Interpretation
import Recurrence.Proofs.Mention.Clock
import Recurrence.Proofs.Phrase.Rules
import Recurrence.Proofs.Readings

namespace Recurrence

/-! Schedules that texts are read as. They are well-formed in the layout that is asked for,
but for lists in which no weekday stands alone: those leave the field for weekdays empty. -/

open Crontab Phrase

/-- A teller that only tells times of day as clocks show them. -/
def TimeTeller.InRange (teller : TimeTeller) : Prop :=
  ∀ text clock, teller text = .ok (some clock) → clock.InRange

theorem mentionedTime_inRange : mentionedTime.InRange := by
  intro text clock told
  unfold mentionedTime at told
  split at told
  · rename_i found read
    cases told
    exact Mention.time?_inRange read
  · cases told

/-! Well-formed schedules -/

theorem not_wellFormed_weekdays_nil {clock : Clock} (inRange : clock.InRange) (format : Format) :
    ¬ WellFormed ((weekdays [] clock).line.textIn format) format := by
  have minuteFits : (Term.value clock.minute).Fits .minute :=
    Term.value_fits inRange.2.1 inRange.2.2
  have hourFits : (Term.value clock.hour).Fits .hour := Term.value_fits inRange.1.1 inRange.1.2
  have text : (weekdays [] clock).line.text =
      (Term.value clock.minute).text ++
        ' ' :: ((Term.value clock.hour).text ++ ' ' :: "* * ".toList) := by
    simp [Phrase.line, lineAt, Line.text, Line.terms, Text.joinWith, Term.text]
  have words : Text.words (weekdays [] clock).line.text =
      [(Term.value clock.minute).text, (Term.value clock.hour).text, ['*'], ['*']] := by
    have stars : Text.words "* * ".toList = [['*'], ['*']] := by decide
    rw [text, Text.words_word_append minuteFits.writtenAs.isWord Text.isBlank_space,
      Text.words_word_append hourFits.writtenAs.isWord Text.isBlank_space, stars]
  intro wellFormed
  have count := wellFormed.words_length
  cases format with
  | five =>
      rw [Line.textIn, words] at count
      cases count
  | six =>
      have prefixed : Text.words (['0'] ++ ' ' :: (weekdays [] clock).line.text) = _ :=
        Text.words_word_append isWord_zero Text.isBlank_space _
      rw [words] at prefixed
      rw [Line.textIn, show "0 ".toList = ['0', ' '] by decide] at count
      rw [show ['0', ' '] ++ (weekdays [] clock).line.text =
        ['0'] ++ ' ' :: (weekdays [] clock).line.text from rfl, prefixed] at count
      cases count

/-! Readings -/

theorem Reading.schedule?_inFormat {reading : Reading} {format : Format} {schedule : List Char}
    (succeeded : (reading.inFormat format).schedule? = some schedule) :
    ∃ base, reading.schedule? = some base ∧
      ∀ line : Line, base = line.text → schedule = line.textIn format := by
  cases found : reading.outcome with
  | error complaint =>
      cases format <;>
        simp [inFormat, withSeconds, schedule?, found, Except.map, Except.toOption] at succeeded
  | ok base =>
      refine ⟨base, by rw [schedule?, found]; rfl, ?_⟩
      intro line same
      subst same
      cases format <;>
        simp only [inFormat, withSeconds, schedule?, found, Except.map, Except.toOption,
          Option.some.injEq] at succeeded
      · exact succeeded.symm
      · exact succeeded.symm

theorem Phrase.schedule?_reading (phrase : Phrase) :
    phrase.reading.schedule? = some phrase.line.text := by
  unfold reading
  split <;> rfl

theorem Phrase.interpretation_reading (phrase : Phrase) :
    phrase.reading.interpretation = some phrase.confirmation := by
  unfold reading
  split <;> rfl

theorem Phrase.confidence_reading (phrase : Phrase) :
    phrase.reading.confidence = phrase.confidence := by
  unfold reading
  split <;> rfl

theorem not_listsNoWeekday_of_recognize {text : List Char} (unread : recognize text = .ok none) :
    ¬ ListsNoWeekday text := by
  intro listed
  obtain ⟨captures, read, _⟩ := listed
  rw [recognize, findSome?_of_weekdaysRule read] at unread
  cases sense : readingOf (weekdaysRule.sense captures) <;> simp [sense, Except.map] at unread

theorem ComesTo.exists_line {teller : TimeTeller} (tells : teller.InRange)
    {text schedule : List Char} {reading : Reading} (comes : ComesTo teller text reading)
    (succeeded : reading.schedule? = some schedule) :
    ∃ line : Line, schedule = line.text ∧
      ((line.Fits ∧ ¬ ListsNoWeekday (canonical text)) ∨
        ∃ clock : Clock, clock.InRange ∧ line = (Phrase.weekdays [] clock).line ∧
          ListsNoWeekday (canonical text)) := by
  cases comes with
  | failure complaint => cases succeeded
  | @recognized phrase found =>
      rw [Phrase.schedule?_reading, Option.some.injEq] at succeeded
      refine ⟨phrase.line, succeeded.symm, (line_fits_or_listsNoWeekday found).imp_right ?_⟩
      intro emptyList
      obtain ⟨clock, inRange, rfl, listed⟩ := emptyList
      exact ⟨clock, inRange, rfl, listed⟩
  | weekdays unread told named =>
      exact ⟨_, (Option.some.inj succeeded).symm, Or.inl
        ⟨weekdays_line_fits named (tells _ _ told), not_listsNoWeekday_of_recognize unread⟩⟩
  | days unread told bounds =>
      rw [Phrase.schedule?_reading, Option.some.injEq] at succeeded
      exact ⟨_, succeeded.symm, Or.inl
        ⟨days_line_fits bounds (tells _ _ told), not_listsNoWeekday_of_recognize unread⟩⟩
  | @daily clock unread told =>
      exact ⟨(Phrase.daily clock).line, (Option.some.inj succeeded).symm, Or.inl
        ⟨lineAt_fits (tells _ _ told) trivial trivial trivial, not_listsNoWeekday_of_recognize unread⟩⟩

/-- The schedule that a text is read as is a line that fits, unless it is a list of no
weekdays. -/
theorem exists_line_of_interpretWith {teller : TimeTeller} (tells : teller.InRange)
    {text schedule : List Char} {format : Format} {reading : Reading}
    (read : interpretWith teller text format = .ok reading)
    (succeeded : reading.schedule? = some schedule) :
    ∃ line : Line, schedule = line.textIn format ∧
      ((line.Fits ∧ ¬ ListsNoWeekday (canonical text)) ∨
        ∃ clock : Clock, clock.InRange ∧ line = (weekdays [] clock).line ∧
          ListsNoWeekday (canonical text)) := by
  obtain ⟨base, comes, rfl⟩ := exists_comesTo_of_interpretWith read
  obtain ⟨found, foundBase, placed⟩ := Reading.schedule?_inFormat succeeded
  obtain ⟨line, rfl, form⟩ := comes.exists_line tells foundBase
  exact ⟨line, placed line rfl, form⟩

deriving instance DecidableEq for Reading

/-- With any teller of times that clocks show, such as the one that reads them out of the
text, a schedule is well-formed in the layout that was asked for exactly if the text is not
a list of weekdays in which none of them stands alone. -/
theorem interpretWith_wellFormed_iff {teller : TimeTeller} (tells : teller.InRange)
    {text schedule : List Char} {format : Format} {reading : Reading}
    (read : interpretWith teller text format = .ok reading)
    (succeeded : reading.schedule? = some schedule) :
    mentionedTime.InRange ∧
      (WellFormed schedule format ↔ ¬ ListsNoWeekday (canonical text)) := by
  refine ⟨mentionedTime_inRange, ?_⟩
  obtain ⟨line, rfl, ⟨fits, listed⟩ | ⟨clock, inRange, rfl, listed⟩⟩ :=
    exists_line_of_interpretWith tells read succeeded
  · exact iff_of_true (fits.wellFormed format) listed
  · exact iff_of_false (not_wellFormed_weekdays_nil inRange format) (not_not_intro listed)

theorem interpretWith_wellFormed_iff_separated :
    WellFormed "0 0 9 * * 1,3".toList .six ↔
      ¬ ListsNoWeekday (canonical "every Mon, Wed at 9am".toList) :=
  (interpretWith_wellFormed_iff mentionedTime_inRange
    (show interpretWith mentionedTime "every Mon, Wed at 9am".toList .six =
      .ok ((Phrase.weekdays [.monday, .wednesday] ⟨9, 0⟩).reading.inFormat .six) by
        decide +kernel)
    (by decide +kernel)).2

/-- Weekdays that are run together make up a list, but leave a schedule of four fields. -/
theorem interpret_runTogether_not_wellFormed :
    ∃ reading schedule, interpret "every monandtue".toList .five = .ok reading ∧
      reading.schedule? = some schedule ∧ ¬ WellFormed schedule .five :=
  ⟨(Phrase.weekdays [] .midnight).reading, "0 0 * * ".toList, by decide +kernel,
    by decide +kernel, fun wellFormed => absurd wellFormed.words_length (by decide +kernel)⟩

end Recurrence
