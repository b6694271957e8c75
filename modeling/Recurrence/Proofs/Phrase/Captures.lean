import Recurrence.Phrase.Loose
import Recurrence.Proofs.Pattern.Apart
import Recurrence.Proofs.Pattern.Captured
import Recurrence.Proofs.Pattern.Preferred
import Recurrence.Proofs.Phrase.Senses
import Recurrence.Proofs.Phrase.Weekdays
import Recurrence.Proofs.Text.Numerals

namespace Recurrence.Phrase

/-! What rules capture. A slot is filled in the same way by all of them: numbers with digits, and
words with words that mean something. So a sense never lacks what it looks up, and only a number
that is too long to be read can keep it from coming to a reading. -/

open Pattern

def IsNumeral (text : List Char) : Prop :=
  text ≠ [] ∧ ∀ c ∈ text, Text.isDigit c = true

def monthTexts : List String :=
  ["january", "february", "march", "april", "may", "june", "july", "august", "september",
    "october", "november", "december", "jan", "feb", "mar", "apr", "jun", "jul", "aug", "sept",
    "sep", "oct", "nov", "dec"]

/-- The texts that a slot may be filled with. -/
def Slot.Admits : Slot → List Char → Prop
  | .count, text => IsNumeral text
  | .hour, text | .minute, text | .dayOfMonth, text | .firstHour, text | .secondHour, text =>
      IsNumeral text ∧ text.length ≤ 2
  | .meridiem, text | .firstMeridiem, text | .secondMeridiem, text =>
      text ∈ ["am".toList, "pm".toList]
  | .clockWord, text => text ∈ ["noon".toList, "midnight".toList]
  | .weekday, text => (Weekday.ofWord? text).isSome
  | .weekdays, text => weekdayList.Matches text
  | .month, text => (Month.ofWord? text).isSome
  | .turn, text =>
      (∃ entry ∈ turnWords, entry.1.toList = text) ∨ IsNumeral (text.filter Text.isDigit)
  | .unit, _ => False

/-- The patterns that rules fill a slot by. -/
def Slot.patterns : Slot → List PhrasePattern
  | .count => [digits]
  | .hour | .dayOfMonth | .firstHour | .secondHour => [shortNumber]
  | .minute => [.seq digit digit]
  | .meridiem | .firstMeridiem | .secondMeridiem => [meridiemWord]
  | .clockWord => [anyOf ["noon", "midnight"]]
  | .weekday => [weekdayWord]
  | .weekdays => [weekdayList]
  | .month => [monthWord]
  | .turn => [turnWord, .seq digits ordinalEnding]
  | .unit => []

theorem bodies_of_rules :
    ∀ rule ∈ rules, ∀ part ∈ rule.pattern.bodies, part.2 ∈ part.1.patterns := by
  decide

/-! Texts of slots -/

variable {text : List Char} {slot : Slot} {captures : Captures Slot}

theorem isDigit_of_sets {pattern : PhrasePattern} (onlyDigits : ∀ set ∈ pattern.sets, set = .digit)
    (reads : pattern.Matches text) : ∀ c ∈ text, Text.isDigit c = true := by
  intro c member
  obtain ⟨set, listed, contained⟩ := exists_set_of_matches reads c member
  rw [onlyDigits set listed] at contained
  exact contained

theorem isNumeral_of_digits (reads : (digits : PhrasePattern).Matches text) : IsNumeral text := by
  refine ⟨?_, isDigit_of_sets (by decide) reads⟩
  obtain ⟨front, back, rfl, ⟨c, rfl, _⟩, _⟩ := reads
  exact List.cons_ne_nil _ _

theorem isNumeral_of_shortNumber {σ : Type} (reads : (shortNumber : Pattern σ).Matches text) :
    IsNumeral text ∧ text.length ≤ 2 := by
  obtain ⟨front, back, rfl, ⟨c, rfl, first⟩, ⟨d, rfl, second⟩ | none⟩ := reads
  · exact ⟨⟨List.cons_ne_nil _ _, by simpa using ⟨first, second⟩⟩, le_rfl⟩
  · rw [show back = [] from none]
    exact ⟨⟨List.cons_ne_nil _ _, List.forall_mem_singleton.mpr first⟩, Nat.le_succ 1⟩

theorem isNumeral_of_twoDigits {σ : Type} (reads : (seq digit digit : Pattern σ).Matches text) :
    IsNumeral text ∧ text.length = 2 := by
  obtain ⟨front, back, rfl, ⟨c, rfl, first⟩, d, rfl, second⟩ := reads
  exact ⟨⟨List.cons_ne_nil _ _, by simpa using ⟨first, second⟩⟩, rfl⟩

theorem turn_admits (reads : turnWord.Matches text ∨ (seq digits ordinalEnding).Matches text) :
    Slot.turn.Admits text := by
  rcases reads with byWord | ⟨number, ending, rfl, readsNumber, _⟩
  · have words : turnWord = anyOf ((turnWords.map Prod.fst).map word) := rfl
    rw [words, matches_anyOf_words _ (by decide), List.map_map] at byWord
    obtain ⟨entry, listed, same⟩ := List.mem_map.mp byWord
    exact Or.inl ⟨entry, listed, same⟩
  · obtain ⟨nonempty, isDigits⟩ := isNumeral_of_digits readsNumber
    refine Or.inr ⟨?_, fun c member => List.of_mem_filter member⟩
    rw [List.filter_append, List.filter_eq_self.mpr isDigits]
    exact List.append_ne_nil_of_left_ne_nil nonempty _

theorem Slot.admits_of_matches {body : PhrasePattern} (listed : body ∈ slot.patterns)
    (reads : body.Matches text) : slot.Admits text := by
  cases slot with
  | count => exact isNumeral_of_digits (List.mem_singleton.mp listed ▸ reads)
  | hour | dayOfMonth | firstHour | secondHour =>
      exact isNumeral_of_shortNumber (List.mem_singleton.mp listed ▸ reads)
  | minute => exact (isNumeral_of_twoDigits (List.mem_singleton.mp listed ▸ reads)).imp_right Eq.le
  | meridiem | firstMeridiem | secondMeridiem =>
      rw [List.mem_singleton.mp listed] at reads
      exact (matches_anyOf_words ["am", "pm"] (by decide)).mp reads
  | clockWord =>
      rw [List.mem_singleton.mp listed] at reads
      exact (matches_anyOf_words ["noon", "midnight"] (by decide)).mp reads
  | weekday =>
      rw [List.mem_singleton.mp listed] at reads
      obtain ⟨name, known, same⟩ := List.mem_map.mp
        ((matches_anyOf_words weekdayTexts (by decide)).mp reads)
      exact isSome_ofWord?_iff_mem_weekdayTexts.mpr ⟨name, known, same⟩
  | weekdays =>
      rw [List.mem_singleton.mp listed] at reads
      exact reads
  | month =>
      have known : ∀ name ∈ monthTexts, (Month.ofWord? name.toList).isSome := by decide
      rw [List.mem_singleton.mp listed] at reads
      obtain ⟨name, member, rfl⟩ := List.mem_map.mp
        ((matches_anyOf_words monthTexts (by decide)).mp reads)
      exact known name member
  | turn =>
      apply turn_admits
      rcases List.mem_cons.mp listed with rfl | further
      · exact Or.inl reads
      · exact Or.inr (List.mem_singleton.mp further ▸ reads)
  | unit => cases listed

/-! Captures of rules -/

/-- The slots that senses take to be filled. A time of day is left out where it is missing. -/
def takenSlots : List Slot :=
  [.count, .weekday, .weekdays, .dayOfMonth, .month, .turn, .firstHour, .firstMeridiem, .secondHour,
    .secondMeridiem]

theorem filled_of_rules : ∀ rule ∈ rules, ∀ slot ∈ takenSlots,
    slot ∈ rule.pattern.slots → slot ∈ rule.pattern.filled := by
  decide

/-- Captures of a rule. What the sense takes to be there is there, and has a meaning. -/
structure Rule.Captured (rule : Rule) (captures : Captures Slot) : Prop where
  own : ∀ slot text, captures.text? slot = some text → slot ∈ rule.pattern.slots
  admits : ∀ slot text, captures.text? slot = some text → slot.Admits text
  taken : ∀ slot ∈ takenSlots, slot ∈ rule.pattern.slots → (captures.text? slot).isSome

variable {rule : Rule}

theorem Rule.captured_of_whole? (inRules : rule ∈ rules)
    (read : rule.pattern.whole? text = some captures) : rule.Captured captures := by
  obtain ⟨way, member, rfl⟩ := exists_way_of_whole? read
  constructor
  · intro slot part captured
    obtain ⟨body, listed, _⟩ := exists_body_of_text? member captured
    exact List.mem_map_of_mem listed
  · intro slot part captured
    obtain ⟨body, listed, reads⟩ := exists_body_of_text? member captured
    exact Slot.admits_of_matches (bodies_of_rules rule inRules _ listed) reads
  · intro slot isTaken listed
    exact isSome_text?_of_mem_filled (filled_of_rules rule inRules slot isTaken listed) member

theorem Rule.Captured.text_eq_nil (captured : rule.Captured captures)
    (absent : slot ∉ rule.pattern.slots) : captures.text slot = [] := by
  rw [Captures.text]
  cases found : captures.text? slot with
  | none => rfl
  | some text => exact absurd (captured.own slot text found) absent

/-- Numbers other than counts and turns have at most two digits. -/
theorem Rule.Captured.not_long (captured : rule.Captured captures)
    (isShort : slot ∈ [.hour, .minute, .dayOfMonth, .firstHour, .secondHour])
    (found : captures.text? slot = some text) : ¬ Text.maxDigits < text.length := by
  have short : text.length ≤ 2 := by
    have admits := captured.admits slot text found
    simp only [List.mem_cons, List.not_mem_nil, or_false] at isShort
    rcases isShort with rfl | rfl | rfl | rfl | rfl
    all_goals exact admits.2
  exact Nat.not_lt.mpr (short.trans (by decide))

theorem Rule.Captured.not_long_text (captured : rule.Captured captures)
    (isShort : slot ∈ [.hour, .minute, .dayOfMonth, .firstHour, .secondHour]) :
    ¬ Text.maxDigits < (captures.text slot).length := by
  rw [Captures.text]
  cases found : captures.text? slot with
  | none => exact Nat.not_lt_zero _
  | some text => exact captured.not_long isShort found

/-! Numbers that are too long -/

/-- A sense that is not reached, since a number on the way to it is too long to be read. -/
def StopsAtNumber (sense : Sense α) : Prop :=
  ∃ fault, sense = .error (.numeralTooLong fault)

theorem stopsAtNumber_bind_iff {sense : Sense α} {further : α → Sense β} :
    StopsAtNumber (sense >>= further) ↔
      StopsAtNumber sense ∨ ∃ a, sense = .ok a ∧ StopsAtNumber (further a) := by
  cases sense with
  | error fault => simp [StopsAtNumber, bind, Except.bind]
  | ok a => simp [StopsAtNumber, bind, Except.bind]

theorem not_stopsAtNumber_ok (a : α) : ¬ StopsAtNumber (.ok a : Sense α) := by
  rintro ⟨_, stopped⟩
  cases stopped

theorem stopsAtNumber_number_iff {digits : List Char} :
    StopsAtNumber (number digits) ↔ Text.maxDigits < digits.length := by
  rw [← Text.readDigits_eq_error_iff, number, StopsAtNumber]
  cases Text.readDigits digits <;> simp

theorem not_stopsAtNumber_within {least greatest n : Nat} {fault : RangeFault} :
    ¬ StopsAtNumber (within least greatest fault n) := by
  unfold within
  rintro ⟨_, stopped⟩
  split at stopped <;> cases stopped

theorem stopsAtNumber_boundedNumber_iff {digits : List Char} {least greatest : Nat}
    {fault : RangeFault} :
    StopsAtNumber (boundedNumber digits least greatest fault) ↔ Text.maxDigits < digits.length := by
  rw [boundedNumber, stopsAtNumber_bind_iff, stopsAtNumber_number_iff, or_iff_left]
  exact fun behind => not_stopsAtNumber_within behind.choose_spec.2

theorem stopsAtNumber_hourOf_iff {digits : List Char} {meridiem : Option (List Char)} :
    StopsAtNumber (hourOf digits meridiem) ↔ Text.maxDigits < digits.length := by
  cases meridiem with
  | none => exact stopsAtNumber_boundedNumber_iff
  | some meridiem =>
      rw [hourOf, stopsAtNumber_bind_iff, stopsAtNumber_boundedNumber_iff, or_iff_left]
      exact fun behind => not_stopsAtNumber_ok _ behind.choose_spec.2

theorem stopsAtNumber_turnOf_iff :
    StopsAtNumber (turnOf captures) ↔
      Text.maxDigits < ((captures.text .turn).filter Text.isDigit).length := by
  have noDigits : ∀ entry ∈ turnWords, entry.1.toList.filter Text.isDigit = [] := by decide
  simp only [turnOf]
  split
  · rename_i entry found
    have same : entry.1.toList = captures.text .turn := by simpa using List.find?_some found
    rw [← same, noDigits entry (List.mem_of_find?_eq_some found)]
    exact iff_of_false not_stopsAtNumber_within (by decide)
  · rw [stopsAtNumber_bind_iff, stopsAtNumber_number_iff, or_iff_left]
    exact fun behind => not_stopsAtNumber_within behind.choose_spec.2

theorem Rule.Captured.not_stopsAtNumber_clockOf (captured : rule.Captured captures) :
    ¬ StopsAtNumber (clockOf captures) := by
  unfold clockOf
  split
  · exact not_stopsAtNumber_ok _
  · rename_i hourDigits _ found
    have hourReads := captured.not_long (by decide) found
    rw [stopsAtNumber_bind_iff, stopsAtNumber_hourOf_iff, or_iff_right hourReads]
    rintro ⟨hour, _, stopped⟩
    split at stopped
    · rename_i minuteDigits found
      have minuteReads := captured.not_long (by decide) found
      rw [stopsAtNumber_bind_iff, stopsAtNumber_boundedNumber_iff, or_iff_right minuteReads]
        at stopped
      exact not_stopsAtNumber_ok _ stopped.choose_spec.2
    · exact not_stopsAtNumber_ok _ stopped
  · exact not_stopsAtNumber_ok _

/-! Senses -/

/-- A count or a turn that is too long to be read. -/
def HasLongNumber (captures : Captures Slot) : Prop :=
  Text.maxDigits < (captures.text .count).length ∨
    Text.maxDigits < ((captures.text .turn).filter Text.isDigit).length

theorem Rule.Captured.not_hasLongNumber (captured : rule.Captured captures)
    (noNumber : .count ∉ rule.pattern.slots ∧ .turn ∉ rule.pattern.slots) :
    ¬ HasLongNumber captures := by
  rw [HasLongNumber, captured.text_eq_nil noNumber.1, captured.text_eq_nil noNumber.2]
  decide

/-- Captures that are the same in the slots of a pattern and in those of the time of day. -/
def AgreeOn (pattern : PhrasePattern) (one other : Captures Slot) : Prop :=
  ∀ slot ∈ clockSlots ++ pattern.slots, one.text? slot = other.text? slot

variable {pattern : PhrasePattern} {one other : Captures Slot}

theorem AgreeOn.text?_eq (agree : AgreeOn pattern one other) (listed : slot ∈ pattern.slots) :
    one.text? slot = other.text? slot :=
  agree slot (List.mem_append_right _ listed)

theorem AgreeOn.text_eq (agree : AgreeOn pattern one other) (listed : slot ∈ pattern.slots) :
    one.text slot = other.text slot := by
  rw [Captures.text, agree.text?_eq listed, Captures.text]

theorem AgreeOn.clockOf_eq (agree : AgreeOn pattern one other) : clockOf one = clockOf other :=
  clockOf_congr (List.forall_mem_append.mp agree).1

/-- A sense looks at the slots of its own pattern only, and only a long number stops it. -/
structure Rule.IsSound (rule : Rule) : Prop where
  own : ∀ one other, AgreeOn rule.pattern one other → rule.sense one = rule.sense other
  stops : ∀ captures, rule.Captured captures →
    (StopsAtNumber (rule.sense captures) ↔ HasLongNumber captures)

theorem always_isSound {phrase : Phrase}
    (noNumber : .count ∉ pattern.slots ∧ .turn ∉ pattern.slots) :
    Rule.IsSound ⟨pattern, always phrase⟩ where
  own _ _ _ := rfl
  stops _ captured := iff_of_false (not_stopsAtNumber_ok _) (captured.not_hasLongNumber noNumber)

theorem bind_isSound (first : Captures Slot → Sense α) {further : Captures Slot → α → Sense Phrase}
    (ownFirst : ∀ one other, AgreeOn pattern one other → first one = first other)
    (ownFurther : ∀ one other, AgreeOn pattern one other → further one = further other)
    (stops : ∀ {rule : Rule} {captures}, rule.pattern = pattern → rule.Captured captures →
      (StopsAtNumber (first captures) ↔ HasLongNumber captures))
    (reaches : ∀ {rule : Rule} {captures}, rule.Captured captures → ∀ a,
      ¬ StopsAtNumber (further captures a)) :
    Rule.IsSound ⟨pattern, fun captures => first captures >>= further captures⟩ where
  own one other agree := by
    simp only [ownFirst one other agree, ownFurther one other agree]
  stops captures captured := by
    rw [stopsAtNumber_bind_iff, stops rfl captured, or_iff_left]
    exact fun behind => reaches captured _ behind.choose_spec.2

/-- Senses that read a count first. -/
theorem counted_isSound {read : List Char → Sense Nat} {further : Captures Slot → Nat → Sense Phrase}
    (numbers : .count ∈ pattern.slots ∧ .turn ∉ pattern.slots)
    (stops : ∀ digits, StopsAtNumber (read digits) ↔ Text.maxDigits < digits.length)
    (own : ∀ one other, AgreeOn pattern one other → further one = further other)
    (reaches : ∀ {rule : Rule} {captures}, rule.Captured captures → ∀ n,
      ¬ StopsAtNumber (further captures n)) :
    Rule.IsSound ⟨pattern, fun captures => read (captures.text .count) >>= further captures⟩ := by
  refine bind_isSound _ (fun one other agree => ?_) own ?_ reaches
  · rw [agree.text_eq numbers.1]
  · rintro rule captures rfl captured
    rw [stops, HasLongNumber, captured.text_eq_nil numbers.2]
    exact (or_iff_left (by decide)).symm

theorem Rule.Captured.not_stopsAtNumber_atClock (captured : rule.Captured captures)
    (phraseOf : Clock → Phrase) :
    ¬ StopsAtNumber (clockOf captures >>= fun clock => pure (phraseOf clock)) := by
  rw [stopsAtNumber_bind_iff, or_iff_right captured.not_stopsAtNumber_clockOf]
  exact fun behind => not_stopsAtNumber_ok _ behind.choose_spec.2

theorem timed_isSound {phraseOf : Captures Slot → Clock → Phrase}
    (noNumber : .count ∉ pattern.slots ∧ .turn ∉ pattern.slots)
    (own : ∀ one other, AgreeOn pattern one other → phraseOf one = phraseOf other) :
    Rule.IsSound ⟨pattern, fun captures => timed (phraseOf captures) captures⟩ where
  own one other agree := by simp only [timed, own one other agree, agree.clockOf_eq]
  stops captures captured := by
    refine iff_of_false ?_ (captured.not_hasLongNumber noNumber)
    have reads := captured.not_stopsAtNumber_clockOf
    simp only [timed]
    cases told : clockOf captures with
    | error fault =>
        rw [told] at reads
        rintro ⟨tooLong, stopped⟩
        exact reads ⟨tooLong, congrArg Except.error (Except.error.inj stopped)⟩
    | ok clock => exact not_stopsAtNumber_ok _

theorem countedDays_isSound (numbers : .count ∈ pattern.slots ∧ .turn ∉ pattern.slots) :
    Rule.IsSound ⟨pattern, countedDays⟩ := by
  refine counted_isSound numbers (fun _ => stopsAtNumber_boundedNumber_iff) ?_ ?_
  · intro one other agree
    rw [agree.clockOf_eq]
  · intro rule captures captured n
    exact captured.not_stopsAtNumber_atClock _

theorem onDayOfMonth_isSound (noNumber : .count ∉ pattern.slots ∧ .turn ∉ pattern.slots)
    (day : .dayOfMonth ∈ pattern.slots) : Rule.IsSound ⟨pattern, onDayOfMonth⟩ := by
  refine bind_isSound (fun captures =>
    boundedNumber (captures.text .dayOfMonth) 1 31 .dayOfMonth) ?_ ?_ ?_ ?_
  · intro one other agree
    rw [agree.text_eq day]
  · intro one other agree
    rw [agree.clockOf_eq]
  · rintro rule captures rfl captured
    rw [stopsAtNumber_boundedNumber_iff]
    exact iff_of_false (captured.not_long_text (by decide)) (captured.not_hasLongNumber noNumber)
  · intro rule captures captured n
    exact captured.not_stopsAtNumber_atClock _

theorem twiceADayAtHours_isSound (noNumber : .count ∉ pattern.slots ∧ .turn ∉ pattern.slots)
    (hours : ∀ slot ∈ [.firstHour, .firstMeridiem, .secondHour, .secondMeridiem],
      slot ∈ pattern.slots) : Rule.IsSound ⟨pattern, twiceADayAtHours⟩ := by
  simp only [List.forall_mem_cons] at hours
  obtain ⟨first, firstHalf, second, secondHalf, _⟩ := hours
  refine bind_isSound (fun captures =>
    hourOf (captures.text .firstHour) (captures.text? .firstMeridiem)) ?_ ?_ ?_ ?_
  · intro one other agree
    rw [agree.text_eq first, agree.text?_eq firstHalf]
  · intro one other agree
    rw [agree.text_eq second, agree.text?_eq secondHalf]
  · rintro rule captures rfl captured
    rw [stopsAtNumber_hourOf_iff]
    exact iff_of_false (captured.not_long_text (by decide)) (captured.not_hasLongNumber noNumber)
  · intro rule captures captured n
    rw [stopsAtNumber_bind_iff, stopsAtNumber_hourOf_iff,
      or_iff_right (captured.not_long_text (by decide))]
    exact fun behind => not_stopsAtNumber_ok _ behind.choose_spec.2

theorem yearlyOn_isSound (noNumber : .count ∉ pattern.slots ∧ .turn ∉ pattern.slots)
    (slots : .month ∈ pattern.slots ∧ .dayOfMonth ∈ pattern.slots) :
    Rule.IsSound ⟨pattern, yearlyOn⟩ := by
  have month {one other : Captures Slot} (agree : AgreeOn pattern one other) :
      monthOf one = monthOf other := by
    rw [monthOf, agree.text_eq slots.1, monthOf]
  refine bind_isSound (fun captures => boundedNumber (captures.text .dayOfMonth) 1
    (longestMonth (monthOf captures)) (.dayOfYearlyMonth (monthOf captures))) ?_ ?_ ?_ ?_
  · intro one other agree
    rw [agree.text_eq slots.2, month agree]
  · intro one other agree
    rw [month agree, agree.clockOf_eq]
  · rintro rule captures rfl captured
    rw [stopsAtNumber_boundedNumber_iff]
    exact iff_of_false (captured.not_long_text (by decide)) (captured.not_hasLongNumber noNumber)
  · intro rule captures captured n
    exact captured.not_stopsAtNumber_atClock _

theorem AgreeOn.weekdayOf_eq (agree : AgreeOn pattern one other)
    (listed : .weekday ∈ pattern.slots) : weekdayOf one = weekdayOf other := by
  rw [weekdayOf, agree.text_eq listed, weekdayOf]

theorem nthWeekdayOf_isSound (noCount : .count ∉ pattern.slots)
    (slots : .turn ∈ pattern.slots ∧ .weekday ∈ pattern.slots) :
    Rule.IsSound ⟨pattern, nthWeekdayOf⟩ := by
  refine bind_isSound turnOf ?_ ?_ ?_ ?_
  · intro one other agree
    simp only [turnOf, agree.text_eq slots.1]
  · intro one other agree
    rw [agree.weekdayOf_eq slots.2, agree.clockOf_eq]
  · rintro rule captures rfl captured
    rw [stopsAtNumber_turnOf_iff, HasLongNumber, captured.text_eq_nil noCount]
    exact (or_iff_right (by decide)).symm
  · intro rule captures captured n
    exact captured.not_stopsAtNumber_atClock _

/-! The table -/

theorem idioms_areSound : ∀ rule ∈ idioms, rule.IsSound := by
  simp only [idioms, List.forall_mem_cons]
  exact ⟨always_isSound (by decide), always_isSound (by decide), always_isSound (by decide),
    always_isSound (by decide), always_isSound (by decide), nofun⟩

theorem intervals_areSound : ∀ rule ∈ intervals, rule.IsSound := by
  have bounded (least greatest : Nat) (fault : RangeFault) (digits : List Char) :
      StopsAtNumber (boundedNumber digits least greatest fault) ↔
        Text.maxDigits < digits.length := stopsAtNumber_boundedNumber_iff
  simp only [intervals, List.forall_mem_cons]
  exact ⟨counted_isSound (by decide) (bounded _ _ _) (fun _ _ _ => rfl)
      fun _ _ => not_stopsAtNumber_ok _,
    counted_isSound (by decide) (bounded _ _ _) (fun _ _ _ => rfl)
      fun _ _ => not_stopsAtNumber_ok _,
    countedDays_isSound (by decide), countedDays_isSound (by decide), List.forall_mem_nil _⟩

theorem timesOfDay_areSound : ∀ rule ∈ timesOfDay, rule.IsSound := by
  simp only [timesOfDay, List.forall_mem_cons]
  refine ⟨timed_isSound (by decide) fun _ _ _ => rfl, timed_isSound (by decide) fun _ _ _ => rfl,
    timed_isSound (by decide) fun one other agree => ?_,
    timed_isSound (by decide) fun _ _ _ => rfl, timed_isSound (by decide) fun _ _ _ => rfl,
    timed_isSound (by decide) fun one other agree => ?_, nofun⟩
  · rw [agree.weekdayOf_eq (by decide)]
  · simp only [weekdaysOf, agree.text_eq (show Slot.weekdays ∈ _ by decide)]

theorem monthly_areSound : ∀ rule ∈ monthly, rule.IsSound := by
  simp only [monthly, List.forall_mem_cons]
  exact ⟨timed_isSound (by decide) fun _ _ _ => rfl, onDayOfMonth_isSound (by decide) (by decide),
    always_isSound (by decide), always_isSound (by decide), nofun⟩

theorem twice_areSound : ∀ rule ∈ twice, rule.IsSound := by
  simp only [twice, List.forall_mem_cons]
  exact ⟨always_isSound (by decide), twiceADayAtHours_isSound (by decide) (by decide), nofun⟩

theorem weeklyAndYearly_areSound : ∀ rule ∈ weeklyAndYearly, rule.IsSound := by
  simp only [weeklyAndYearly, List.forall_mem_cons]
  exact ⟨always_isSound (by decide), always_isSound (by decide), always_isSound (by decide),
    always_isSound (by decide), always_isSound (by decide),
    yearlyOn_isSound (by decide) (by decide), nofun⟩

theorem approximations_areSound : ∀ rule ∈ approximations, rule.IsSound := by
  simp only [approximations, List.forall_mem_cons]
  refine ⟨timed_isSound (by decide) fun one other agree => ?_,
    nthWeekdayOf_isSound (by decide) (by decide), timed_isSound (by decide) fun _ _ _ => rfl,
    nthWeekdayOf_isSound (by decide) (by decide),
    counted_isSound (by decide) (fun _ => stopsAtNumber_number_iff) (fun _ _ _ => rfl)
      fun _ _ => not_stopsAtNumber_ok _, List.forall_mem_nil _⟩
  rw [agree.weekdayOf_eq (by decide)]

theorem rules_areSound : ∀ rule ∈ rules, rule.IsSound := by
  simp only [rules, List.forall_mem_append]
  exact ⟨⟨⟨⟨⟨⟨idioms_areSound, intervals_areSound⟩, timesOfDay_areSound⟩, monthly_areSound⟩,
    twice_areSound⟩, weeklyAndYearly_areSound⟩, approximations_areSound⟩

/-! Loose parts -/

theorem isSome_ofWord?_of_mem_mentions {found : Occurrence Slot}
    (member : found ∈ weekdayMention.occurrences text) :
    (Weekday.ofWord? (found.captures.text .weekday)).isSome := by
  have known : ∀ part ∈ weekdayMention.bodies, part.2 ∈ part.1.patterns := by decide
  have filled : Slot.weekday ∈ weekdayMention.filled := by decide
  obtain ⟨body, listed, reads⟩ := exists_body_of_mem_occurrences filled member
  have admitted : Slot.weekday.Admits (found.captures.text .weekday) :=
    Slot.admits_of_matches (known _ listed) reads
  exact admitted

theorem isNumeral_of_dayInterval? {digits : List Char} (interval : dayInterval? text = some digits) :
    IsNumeral digits := by
  have known : ∀ part ∈ intervalMention.bodies, part.1 = .count → part.2 = Pattern.digits := by
    decide
  unfold dayInterval? at interval
  split at interval
  · cases interval
  · rename_i found others occurrences
    split at interval
    · cases interval
      have filled : Slot.count ∈ intervalMention.filled := by decide
      obtain ⟨body, listed, reads⟩ :=
        exists_body_of_mem_occurrences filled (occurrences ▸ List.mem_cons_self)
      exact isNumeral_of_digits (known _ listed rfl ▸ reads)
    · cases interval

end Recurrence.Phrase
