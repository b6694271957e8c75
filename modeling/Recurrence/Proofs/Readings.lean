import Recurrence.Interpretation
import Recurrence.Proofs.Phrase.Senses

namespace Recurrence

/-! Where readings come from. A text is refused, recognized by a rule, or read loosely at the time
of day that is told of it. The layout that is asked for only puts a field in front of the schedule. -/

open Crontab Phrase

variable {teller : TimeTeller} {text : List Char} {format : Format} {reading : Reading}

/-- What a text may come to before it is laid out. It is only read loosely where no rule reads it. -/
inductive ComesTo (teller : TimeTeller) (text : List Char) : Reading → Prop
  | failure (complaint : List Char) : ComesTo teller text (.failure complaint)
  | recognized {phrase : Phrase}
      (found : rules.findSome? (·.reading? (canonical text)) = some (.ok phrase)) :
      ComesTo teller text phrase.reading
  | weekdays {clock : Clock} (unread : recognize (canonical text) = .ok none)
      (told : teller text = .ok (some clock)) (named : findWeekdays (canonical text) ≠ []) :
      ComesTo teller text (weekdaysReading (findWeekdays (canonical text)) clock)
  | days {clock : Clock} {n : Nat} (unread : recognize (canonical text) = .ok none)
      (told : teller text = .ok (some clock)) (bounds : 1 ≤ n ∧ n ≤ 31) :
      ComesTo teller text (Phrase.days n clock).reading
  | daily {clock : Clock} (unread : recognize (canonical text) = .ok none)
      (told : teller text = .ok (some clock)) : ComesTo teller text (dailyReading clock)

theorem Reading.inFormat_failure (complaint : List Char) (format : Format) :
    (failure complaint).inFormat format = failure complaint := by
  cases format <;> rfl

theorem comesTo_of_recognize (recognized : recognize (canonical text) = .ok (some reading)) :
    ComesTo teller text reading := by
  unfold recognize at recognized
  split at recognized
  · rename_i sense found
    cases sense with
    | ok phrase =>
        cases recognized
        exact .recognized found
    | error fault =>
        cases fault with
        | outOfRange fault =>
            cases recognized
            exact .failure _
        | numeralTooLong fault => cases recognized
  · cases recognized

theorem comesTo_of_readLoosely {clock : Clock} (unread : recognize (canonical text) = .ok none)
    (told : teller text = .ok (some clock))
    (loose : readLoosely (canonical text) clock = .ok (some reading)) :
    ComesTo teller text reading := by
  unfold readLoosely at loose
  split at loose
  · rename_i named
    cases loose
    exact .weekdays unread told named
  · split at loose
    · rename_i digits _
      cases number : Text.readDigits digits with
      | error fault => simp [dayIntervalReading, number, Except.map] at loose
      | ok n =>
          simp only [dayIntervalReading, number, Except.map, Except.ok.injEq,
            Option.some.injEq] at loose
          subst loose
          split
          · rename_i bounds
            exact .days unread told bounds
          · exact .failure _
    · split at loose
      · cases loose
        exact .daily unread told
      · cases loose

theorem exists_comesTo_of_interpretWith (read : interpretWith teller text format = .ok reading) :
    ∃ base, ComesTo teller text base ∧ reading = base.inFormat format := by
  have refused (complaint : List Char) : ∃ base, ComesTo teller text base ∧
      Reading.failure complaint = base.inFormat format :=
    ⟨_, .failure complaint, (Reading.inFormat_failure complaint format).symm⟩
  obtain ⟨inquiry, asked, answered⟩ := bind_eq_ok_iff.mp read
  unfold inquire at asked
  split at asked
  · cases asked
    cases answered
    exact refused _
  · split at asked
    · cases asked
    · rename_i recognized
      cases asked
      cases answered
      exact ⟨_, comesTo_of_recognize recognized, rfl⟩
    · rename_i unread
      cases asked
      obtain ⟨told, telling, resumed⟩ := bind_eq_ok_iff.mp answered
      cases told with
      | none =>
          cases resumed
          exact refused _
      | some clock =>
          cases loose : readLoosely (canonical text) clock with
          | error fault => simp [loose, Except.mapError, Except.map] at resumed
          | ok found =>
              simp only [loose, Except.mapError, Except.map, Except.ok.injEq] at resumed
              subst resumed
              cases found with
              | none => exact refused _
              | some found => exact ⟨found, comesTo_of_readLoosely unread telling loose, rfl⟩

end Recurrence
