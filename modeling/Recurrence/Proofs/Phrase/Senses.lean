import Recurrence.Phrase.Rules
import Recurrence.Proofs.Clock
import Recurrence.Proofs.Crontab.Line

namespace Recurrence

/-! What rules make of captured texts lies in the ranges of the fields. -/

theorem bind_eq_ok_iff {x : Except ε α} {f : α → Except ε β} {b : β} :
    x >>= f = .ok b ↔ ∃ a, x = .ok a ∧ f a = .ok b := by
  cases x with
  | error fault =>
      refine iff_of_false (fun bound => ?_) (not_exists.mpr fun a found => ?_)
      · cases bound
      · cases found.1
  | ok a =>
      refine ⟨fun bound => ⟨a, rfl, bound⟩, fun found => ?_⟩
      obtain ⟨_, same, bound⟩ := found
      cases same
      exact bound

theorem Weekday.code_le (day : Weekday) : day.code ≤ 6 := by
  cases day <;> decide

namespace Phrase

open Crontab

/-! Numbers and times -/

theorem bounds_of_within {least greatest n m : Nat} {fault : RangeFault}
    (accepted : within least greatest fault n = .ok m) : least ≤ m ∧ m ≤ greatest := by
  unfold within at accepted
  split at accepted
  · cases accepted
    assumption
  · cases accepted

theorem bounds_of_boundedNumber {digits : List Char} {least greatest n : Nat} {fault : RangeFault}
    (accepted : boundedNumber digits least greatest fault = .ok n) : least ≤ n ∧ n ≤ greatest := by
  obtain ⟨m, _, inRange⟩ := bind_eq_ok_iff.mp accepted
  exact bounds_of_within inRange

theorem hourOf_le {digits : List Char} {meridiem : Option (List Char)} {hour : Nat}
    (accepted : hourOf digits meridiem = .ok hour) : hour ≤ 23 := by
  cases meridiem with
  | none => exact (bounds_of_boundedNumber accepted).2
  | some meridiem =>
      obtain ⟨face, _, same⟩ := bind_eq_ok_iff.mp accepted
      cases same
      have := Nat.mod_lt face (show 0 < 12 by decide)
      split <;> omega

theorem clockOf_inRange {captures : Captures Slot} {clock : Clock}
    (accepted : clockOf captures = .ok clock) : clock.InRange := by
  unfold clockOf at accepted
  split at accepted
  · cases accepted
    split <;> decide
  · obtain ⟨hour, hourRead, behind⟩ := bind_eq_ok_iff.mp accepted
    have hourBound := hourOf_le hourRead
    split at behind
    · obtain ⟨minute, minuteRead, same⟩ := bind_eq_ok_iff.mp behind
      cases same
      have minuteBound := (bounds_of_boundedNumber minuteRead).2
      exact ⟨by dsimp only; omega, by dsimp only; omega⟩
    · cases behind
      exact ⟨by dsimp only; omega, by dsimp only; omega⟩
  · cases accepted
    decide

/-- The slots of a time of day. A sense may ask for it where the pattern has none. -/
def clockSlots : List Slot := [.clockWord, .hour, .meridiem, .minute]

theorem clockOf_congr {one other : Captures Slot}
    (same : ∀ slot ∈ clockSlots, one.text? slot = other.text? slot) :
    clockOf one = clockOf other := by
  simp only [clockSlots, List.forall_mem_cons] at same
  obtain ⟨word, hour, meridiem, minute, _⟩ := same
  simp only [clockOf, word, hour, meridiem, minute]

theorem monthOf_bounds (captures : Captures Slot) : 1 ≤ monthOf captures ∧ monthOf captures ≤ 12 := by
  have months : ∀ entry ∈ Month.lexicon, 1 ≤ entry.2 ∧ entry.2 ≤ 12 := by decide
  unfold monthOf
  cases found : Month.ofWord? (captures.text .month) with
  | none => decide
  | some month =>
      obtain ⟨entry, first, rfl⟩ := Option.map_eq_some_iff.mp found
      exact months entry (List.mem_of_find?_eq_some first)

theorem longestMonth_le (month : Nat) : longestMonth month ≤ 31 := by
  unfold longestMonth daysInMonth
  repeat' split
  all_goals omega

/-! Lines -/

theorem lineAt_fits {clock : Clock} (inRange : clock.InRange) {dayOfMonth month dayOfWeek : Term}
    (day : dayOfMonth.Fits .dayOfMonth) (inMonth : month.Fits .month)
    (weekday : dayOfWeek.Fits .dayOfWeek) : (lineAt clock dayOfMonth month dayOfWeek).Fits :=
  ⟨Term.value_fits inRange.2.1 inRange.2.2, Term.value_fits inRange.1.1 inRange.1.2,
    day, inMonth, weekday⟩

theorem code_fits (day : Weekday) : (Term.value day.code).Fits .dayOfWeek :=
  Term.value_fits (Int.natCast_nonneg _) (Int.ofNat_le.mpr day.code_le)

theorem weekdays_line_fits {named : List Weekday} (nonempty : named ≠ []) {clock : Clock}
    (inRange : clock.InRange) : (weekdays named clock).line.Fits := by
  refine lineAt_fits inRange trivial trivial ⟨by simpa using nonempty, ?_⟩
  simp only [List.forall_mem_map]
  exact fun day _ => ⟨Int.natCast_nonneg _, Int.ofNat_le.mpr day.code_le⟩

theorem hourPair_fits {first second : Nat} (firstBound : first ≤ 23) (secondBound : second ≤ 23) :
    (Term.only (hourPair first second)).Fits .hour := by
  have inRange {hour : Nat} (bound : hour ≤ 23) :
      (Field.hour.least : Int) ≤ hour ∧ (hour : Int) ≤ Field.hour.greatest :=
    ⟨Int.natCast_nonneg _, Int.ofNat_le.mpr bound⟩
  unfold hourPair
  repeat' split
  all_goals simp [Term.Fits, inRange firstBound, inRange secondBound]

def Rule.Fits (rule : Rule) : Prop :=
  ∀ captures phrase, rule.sense captures = .ok phrase → phrase.line.Fits

theorem always_fits {pattern : PhrasePattern} {phrase : Phrase} (fits : phrase.line.Fits) :
    Rule.Fits ⟨pattern, always phrase⟩ := by
  intro _ _ accepted
  cases accepted
  exact fits

theorem timed_fits {pattern : PhrasePattern} {phraseOf : Captures Slot → Clock → Phrase}
    (fits : ∀ captures clock, clock.InRange → (phraseOf captures clock).line.Fits) :
    Rule.Fits ⟨pattern, fun captures => timed (phraseOf captures) captures⟩ := by
  intro captures phrase accepted
  cases told : clockOf captures with
  | error fault => simp [timed, told, Except.map] at accepted
  | ok clock =>
      simp only [timed, told, Except.map, Except.ok.injEq] at accepted
      subst accepted
      exact fits captures clock (clockOf_inRange told)

theorem minutes_fit {pattern : PhrasePattern} :
    Rule.Fits ⟨pattern, fun captures => do
      return .minutes (← boundedNumber (captures.text .count) 1 59 .minuteCount)⟩ := by
  intro captures phrase accepted
  obtain ⟨n, inRange, same⟩ := bind_eq_ok_iff.mp accepted
  cases same
  have bounds := bounds_of_boundedNumber inRange
  exact ⟨⟨Int.ofNat_le.mpr bounds.1, Int.ofNat_le.mpr bounds.2⟩, trivial, trivial, trivial, trivial⟩

theorem hours_fit {pattern : PhrasePattern} :
    Rule.Fits ⟨pattern, fun captures => do
      return .hours (← boundedNumber (captures.text .count) 1 23 .hourCount)⟩ := by
  intro captures phrase accepted
  obtain ⟨n, inRange, same⟩ := bind_eq_ok_iff.mp accepted
  cases same
  have bounds := bounds_of_boundedNumber inRange
  exact ⟨Term.value_fits (by decide) (by decide),
    ⟨Int.ofNat_le.mpr bounds.1, Int.ofNat_le.mpr bounds.2⟩, trivial, trivial, trivial⟩

theorem days_line_fits {n : Nat} (bounds : 1 ≤ n ∧ n ≤ 31) {clock : Clock}
    (inRange : clock.InRange) : (days n clock).line.Fits :=
  lineAt_fits inRange ⟨Int.ofNat_le.mpr bounds.1, Int.ofNat_le.mpr bounds.2⟩ trivial trivial

theorem countedDays_fits {pattern : PhrasePattern} : Rule.Fits ⟨pattern, countedDays⟩ := by
  intro captures phrase accepted
  obtain ⟨n, inRange, behind⟩ := bind_eq_ok_iff.mp accepted
  obtain ⟨clock, told, same⟩ := bind_eq_ok_iff.mp behind
  cases same
  exact days_line_fits (bounds_of_boundedNumber inRange) (clockOf_inRange told)

theorem onDayOfMonth_fits {pattern : PhrasePattern} : Rule.Fits ⟨pattern, onDayOfMonth⟩ := by
  intro captures phrase accepted
  obtain ⟨day, inRange, behind⟩ := bind_eq_ok_iff.mp accepted
  obtain ⟨clock, told, same⟩ := bind_eq_ok_iff.mp behind
  cases same
  have bounds := bounds_of_boundedNumber inRange
  exact lineAt_fits (clockOf_inRange told)
    (Term.value_fits (Int.ofNat_le.mpr bounds.1) (Int.ofNat_le.mpr bounds.2)) trivial trivial

theorem twiceADayAtHours_fits {pattern : PhrasePattern} :
    Rule.Fits ⟨pattern, twiceADayAtHours⟩ := by
  intro captures phrase accepted
  obtain ⟨first, firstRead, behind⟩ := bind_eq_ok_iff.mp accepted
  obtain ⟨second, secondRead, same⟩ := bind_eq_ok_iff.mp behind
  cases same
  exact ⟨Term.value_fits (by decide) (by decide),
    hourPair_fits (hourOf_le firstRead) (hourOf_le secondRead), trivial, trivial, trivial⟩

theorem yearlyOn_fits {pattern : PhrasePattern} : Rule.Fits ⟨pattern, yearlyOn⟩ := by
  intro captures phrase accepted
  obtain ⟨day, inRange, behind⟩ := bind_eq_ok_iff.mp accepted
  obtain ⟨clock, told, same⟩ := bind_eq_ok_iff.mp behind
  cases same
  have bounds := bounds_of_boundedNumber inRange
  have month := monthOf_bounds captures
  exact lineAt_fits (clockOf_inRange told)
    (Term.value_fits (Int.ofNat_le.mpr bounds.1)
      (Int.ofNat_le.mpr (bounds.2.trans (longestMonth_le _))))
    (Term.value_fits (Int.ofNat_le.mpr month.1) (Int.ofNat_le.mpr month.2)) trivial

theorem nthWeekdayOf_fits {pattern : PhrasePattern} : Rule.Fits ⟨pattern, nthWeekdayOf⟩ := by
  intro captures phrase accepted
  obtain ⟨n, _, behind⟩ := bind_eq_ok_iff.mp accepted
  obtain ⟨clock, told, same⟩ := bind_eq_ok_iff.mp behind
  cases same
  exact lineAt_fits (clockOf_inRange told) trivial trivial (code_fits _)

theorem weeks_fit {pattern : PhrasePattern} :
    Rule.Fits ⟨pattern, fun captures => do return .weeks (← number (captures.text .count))⟩ := by
  intro captures phrase accepted
  obtain ⟨n, _, same⟩ := bind_eq_ok_iff.mp accepted
  cases same
  exact lineAt_fits (by decide) trivial trivial (by decide)

end Phrase

end Recurrence
