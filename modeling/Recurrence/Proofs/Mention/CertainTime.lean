import Recurrence.Proofs.Calendar.Order
import Recurrence.Proofs.Mention.Clock
import Recurrence.Proofs.Mention.ClockPhrases

namespace Recurrence.Mention

/-! The time of day of a text is never one that was only assumed. The leftmost clock phrase with numbers
of a clock decides. Where there is none, the text is read from two moments with different hours, and
an hour is told only if it was found. -/

open Pattern Phrase

variable {text : List Char}

/-! Phrases in a text -/

/-- A phrase is read behind the front of a text. -/
def MentionsBehind (text front : List Char) (phrase : ClockPhrase) : Prop :=
  ∃ rest, text = front ++ rest ∧ phrase.IsReadAt ⟨front.getLast?, rest⟩

/-- A phrase tells a time, and none before it does. -/
structure TellsFirst (text : List Char) (phrase : ClockPhrase) (clock : Clock) : Prop where
  tells : phrase.clock? = some clock
  leftmost : ∃ front, MentionsBehind text front phrase ∧
    ∀ front' other, MentionsBehind text front' other → front'.length < front.length →
      other.clock? = none

theorem phrasedTime?_eq_leftmost? (text : List Char) :
    phrasedTime? text =
      leftmost? (fun place => (clockPhrase.readAt? place).bind fun found =>
        clockOfPhrase? found.captures) none text :=
  findSome?_occurrences clockPhrase_neverOverlaps _ text

theorem bind_readAt?_eq_none_iff {place : Cursor} :
    ((clockPhrase.readAt? place).bind fun found => clockOfPhrase? found.captures) = none ↔
      ∀ phrase : ClockPhrase, phrase.IsReadAt place → phrase.clock? = none := by
  rw [Option.eq_none_iff_forall_ne_some]
  constructor
  · intro untold phrase isRead
    exact Option.eq_none_iff_forall_ne_some.mpr fun clock known =>
      untold clock (bind_readAt?_eq_some_iff.mpr ⟨phrase, isRead, known⟩)
  · intro untold clock told
    obtain ⟨phrase, isRead, known⟩ := bind_readAt?_eq_some_iff.mp told
    rw [untold phrase isRead] at known
    cases known

theorem phrasedTime?_eq_some_iff {clock : Clock} :
    phrasedTime? text = some clock ↔ ∃ phrase, TellsFirst text phrase clock := by
  rw [phrasedTime?_eq_leftmost?, leftmost?_eq_some_iff]
  simp only [placeBehind, Option.or_none, bind_readAt?_eq_some_iff, bind_readAt?_eq_none_iff]
  constructor
  · intro found
    obtain ⟨front, rest, place, ⟨phrase, isRead, known⟩, earlier⟩ := found
    refine ⟨phrase, known, front, ⟨rest, place, isRead⟩, fun front' other mentioned shorter => ?_⟩
    obtain ⟨rest', place', alsoRead⟩ := mentioned
    exact earlier front' rest' place' shorter other alsoRead
  · intro told
    obtain ⟨phrase, known, front, ⟨rest, place, isRead⟩, earlier⟩ := told
    exact ⟨front, rest, place, ⟨phrase, isRead, known⟩, fun front' rest' place' shorter other alsoRead =>
      earlier front' other ⟨rest', place', alsoRead⟩ shorter⟩

theorem phrasedTime?_eq_none_iff :
    phrasedTime? text = none ↔
      ∀ front phrase, MentionsBehind text front phrase → phrase.clock? = none := by
  rw [phrasedTime?_eq_leftmost?, leftmost?_eq_none_iff]
  simp only [placeBehind, Option.or_none, bind_readAt?_eq_none_iff]
  constructor
  · intro untold front phrase mentioned
    obtain ⟨rest, place, isRead⟩ := mentioned
    exact untold front rest place phrase isRead
  · intro untold front rest place phrase isRead
    exact untold front phrase ⟨rest, place, isRead⟩

/-! Readings from a moment -/

namespace Findings

variable {found : Findings} {start moment : Moment}

/-- The hour and the minute of a reading are the ones that were found, or else those of its start. -/
theorem hour_and_minute_of_moment? (read : found.moment? start = some moment) :
    moment.hour = found.hour.getD start.hour ∧ moment.minute = found.minute.getD start.minute := by
  unfold moment? at read
  split at read
  · obtain ⟨parts, -, behind⟩ := Option.bind_eq_some_iff.mp read
    obtain ⟨date, -, made⟩ := Option.bind_eq_some_iff.mp behind
    obtain ⟨-, hour, minute, -⟩ := Moment.of?_eq_some_iff.mp made
    exact ⟨hour, minute⟩
  · cases read

theorem isSome_of?_iff {date : Date} {hour minute second microsecond : Nat} :
    (Moment.of? date hour minute second microsecond).isSome = true ↔
      hour < 24 ∧ minute < 60 ∧ second < 60 ∧ microsecond < 1000000 := by
  unfold Moment.of?
  split <;> simp_all

theorem getD_lt_iff {part : Option Nat} {own bound : Nat} (inRange : own < bound) :
    part.getD own < bound ↔ ∀ n ∈ part, n < bound := by
  cases part <;> simp [inRange]

/-- Whether a reading succeeds does not depend on the time of day that it starts from. -/
theorem isSome_moment?_congr {other : Moment} (sameDate : start.date = other.date) :
    (found.moment? start).isSome = (found.moment? other).isSome := by
  have sameTime (date : Date) :
      (Moment.of? date (found.hour.getD start.hour) (found.minute.getD start.minute)
          (found.second.getD start.second) (found.microsecond.getD start.microsecond)).isSome =
        (Moment.of? date (found.hour.getD other.hour) (found.minute.getD other.minute)
          (found.second.getD other.second) (found.microsecond.getD other.microsecond)).isSome := by
    rw [Bool.eq_iff_iff, isSome_of?_iff, isSome_of?_iff, getD_lt_iff start.hour_lt,
      getD_lt_iff start.minute_lt, getD_lt_iff start.second_lt, getD_lt_iff start.microsecond_lt,
      getD_lt_iff other.hour_lt, getD_lt_iff other.minute_lt, getD_lt_iff other.second_lt,
      getD_lt_iff other.microsecond_lt]
  unfold moment?
  split
  · simp only [onto?, Option.bind_eq_bind, sameDate]
    cases found.date.parts? with
    | none => rfl
    | some parts =>
        simp only [Option.bind_some]
        cases Date.of? _ _ _ with
        | none => rfl
        | some date => exact sameTime date
  · rfl

/-- The hour that was found, and the minute that was found or else the full hour. -/
def clock? (found : Findings) : Option Clock :=
  found.hour.map fun hour : Nat => ⟨hour, found.minute.getD 0⟩

/-- From both moments the reading fails, or it tells the hour that was found. -/
theorem certainTime?_eq (found : Findings) :
    (do
      let first ← found.moment? dayStart
      let second ← found.moment? afternoon
      certainTime? first second) =
      if found.moment? dayStart = none then none else found.clock? := by
  have bothRead : (found.moment? dayStart).isSome = (found.moment? afternoon).isSome :=
    isSome_moment?_congr rfl
  cases readFirst : found.moment? dayStart with
  | none => rfl
  | some first =>
      rw [readFirst, Option.isSome_some] at bothRead
      obtain ⟨second, readSecond⟩ := Option.isSome_iff_exists.mp bothRead.symm
      obtain ⟨firstHour, firstMinute⟩ := hour_and_minute_of_moment? readFirst
      obtain ⟨secondHour, _⟩ := hour_and_minute_of_moment? readSecond
      rw [readSecond, if_neg nofun]
      change certainTime? first second = _
      rw [certainTime?, firstHour, secondHour, firstMinute, clock?]
      -- The two moments have different hours, so theirs is never taken for the one that was found.
      cases found.hour with
      | none => exact if_neg (by decide)
      | some hour => exact if_pos rfl

end Findings

/-- The parser finds no date in a text, or what it finds makes none. -/
def ParserFails (text : List Char) : Prop :=
  findings text = .error .notADate ∨
    ∃ found, findings text = .ok found ∧ found.moment? dayStart = none

theorem writtenTime?_eq_error_iff {fault : Unsplittable} :
    writtenTime? text = .error fault ↔ findings text = .error (.unsplittable fault) := by
  unfold writtenTime?
  split <;> simp_all

theorem writtenTime?_of_findings {found : Findings} (same : findings text = .ok found) :
    writtenTime? text = .ok (if found.moment? dayStart = none then none else found.clock?) := by
  rw [writtenTime?, same]
  exact congrArg Except.ok found.certainTime?_eq

theorem writtenTime?_eq_none_iff :
    writtenTime? text = .ok none ↔
      ParserFails text ∨ ∃ found, findings text = .ok found ∧ found.hour = none := by
  cases outcome : findings text with
  | ok found =>
      rw [writtenTime?_of_findings outcome, Except.ok.injEq, ParserFails, outcome]
      by_cases fails : found.moment? dayStart = none <;> simp [fails, Findings.clock?]
  | error obstacle =>
      rw [writtenTime?, outcome, ParserFails, outcome]
      cases obstacle <;> simp

theorem writtenTime?_eq_some_iff {clock : Clock} :
    writtenTime? text = .ok (some clock) ↔
      ∃ found, findings text = .ok found ∧ found.moment? dayStart ≠ none ∧
        found.clock? = some clock := by
  cases outcome : findings text with
  | ok found =>
      rw [writtenTime?_of_findings outcome, Except.ok.injEq]
      simp
  | error obstacle =>
      rw [writtenTime?, outcome]
      cases obstacle <;> simp

/-! The whole reading -/

/-- An hour is told only if the leftmost phrase that tells a time says so, or if there is no such phrase
and the hour was found. -/
theorem time?_certain (text : List Char) :
    (∀ phrase clock, TellsFirst text phrase clock → time? text = .ok (some clock)) ∧
      ((∀ front phrase, MentionsBehind text front phrase → phrase.clock? = none) →
        (∀ fault, time? text = .error fault ↔ findings text = .error (.unsplittable fault)) ∧
        (time? text = .ok none ↔
          ParserFails text ∨ ∃ found, findings text = .ok found ∧ found.hour = none) ∧
        ∀ found hour, findings text = .ok found → ¬ ParserFails text → found.hour = some hour →
          time? text = .ok (some ⟨hour, found.minute.getD 0⟩)) ∧
      ∀ clock, time? text = .ok (some clock) → clock.InRange := by
  refine ⟨fun phrase clock tells => ?_, fun untold => ?_, fun clock => time?_inRange⟩
  · rw [time?, phrasedTime?_eq_some_iff.mpr ⟨phrase, tells⟩]
  · have written : time? text = writtenTime? text := by
      rw [time?, phrasedTime?_eq_none_iff.mpr untold]
    rw [written]
    refine ⟨fun fault => writtenTime?_eq_error_iff, writtenTime?_eq_none_iff,
      fun found hour outcome reads told => ?_⟩
    refine writtenTime?_eq_some_iff.mpr ⟨found, outcome, fun fails => ?_, ?_⟩
    · exact reads (Or.inr ⟨found, outcome, fails⟩)
    · rw [Findings.clock?, told]
      rfl

/-- A phrase out of range in front of one for the evening, and an hour behind the name of a day. -/
theorem time?_certain_evening :
    time? "at 25, around 8:30 P.M.".toList = .ok (some ⟨20, 30⟩) ∧
      time? "monday 7pm".toList = .ok (some ⟨19, 0⟩) := by
  obtain ⟨phrase, tells⟩ : ∃ phrase, TellsFirst "at 25, around 8:30 P.M.".toList phrase ⟨20, 30⟩ :=
    phrasedTime?_eq_some_iff.mp (by decide +kernel)
  have outcome : findings "monday 7pm".toList =
      .ok { Findings.nothing with weekday := some .monday, hour := some 19 } := by
    decide +kernel
  have reads : ¬ ParserFails "monday 7pm".toList := by
    intro fails
    rcases fails with none | ⟨found, same, fails⟩
    · cases outcome.symm.trans none
    · cases outcome.symm.trans same
      revert fails
      decide +kernel
  have untold := phrasedTime?_eq_none_iff.mp
    (by decide +kernel : phrasedTime? "monday 7pm".toList = none)
  exact ⟨(time?_certain _).1 phrase _ tells,
    ((time?_certain _).2.1 untold).2.2 _ 19 outcome reads rfl⟩

/-- The parser splits off the fraction of a number of hours, and gives up at too many digits in a way
that is not taken for its failure. -/
theorem time?_unsplittable :
    (∀ front phrase,
      MentionsBehind "every 11111111111111111111111111111 hours".toList front phrase →
        phrase.clock? = none) ∧
      time? "every 11111111111111111111111111111 hours".toList = .error ⟨29⟩ :=
  ⟨phrasedTime?_eq_none_iff.mp (by decide +kernel), by decide +kernel⟩

end Recurrence.Mention
