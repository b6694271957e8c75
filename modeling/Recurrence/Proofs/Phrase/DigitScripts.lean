import Mathlib.Logic.Function.Iterate
import Recurrence.Proofs.Pattern.Extend
import Recurrence.Proofs.Pattern.Renaming
import Recurrence.Proofs.Phrase.Canonical
import Recurrence.Proofs.Phrase.Captures
import Recurrence.Proofs.Unambiguity

namespace Recurrence.Phrase

/-! Phrases in any script of digits. Making digits plain changes neither what is taken out of a phrase nor
the rule that reads it, except for the first of the month, where another rule says the same. -/

open Pattern Text

variable {text : List Char} {captures : Captures Slot} {rule : Rule}

/-! Canonical forms -/

theorem isMeridiemAt_plainDigits_iff {c : Char} {rest : List Char} :
    IsMeridiemAt (plainDigit c) (plainDigits rest) ↔ IsMeridiemAt c rest := by
  rw [IsMeridiemAt, isDigit_plainDigit, IsMeridiemAt]
  refine and_congr_right fun _ => exists_congr fun half => and_congr_right fun isHalf => ?_
  have letters : [half, 'm'].any isDigit = false := by
    simp [isDigit_of_isHalf isHalf, show isDigit 'm' = false by decide]
  exact prefix_plainDigits_iff letters

theorem separateMeridiem_plainDigits (text : List Char) :
    separateMeridiem (plainDigits text) = plainDigits (separateMeridiem text) := by
  have space : plainDigit ' ' = ' ' := by decide
  induction text with
  | nil => rfl
  | cons c rest ih =>
      have plain := separateMeridiem_cons (plainDigit c) (plainDigits rest)
      rw [isMeridiemAt_plainDigits_iff, ih] at plain
      rcases separateMeridiem_cons c rest with ⟨meridiem, apart⟩ | ⟨notMeridiem, kept⟩
      · obtain ⟨_, plainApart⟩ | ⟨notMeridiem, _⟩ := plain
        · rw [plainDigits_cons, plainApart, apart, plainDigits_cons, plainDigits_cons, space]
        · exact absurd meridiem notMeridiem
      · obtain ⟨meridiem, _⟩ | ⟨_, plainKept⟩ := plain
        · exact absurd meridiem notMeridiem
        · rw [plainDigits_cons, plainKept, kept, plainDigits_cons]

theorem dropFillers_plainDigits (text : List Char) :
    dropFillers (plainDigits text) = plainDigits (dropFillers text) := by
  unfold dropFillers
  rw [replaceAll_plainDigits (by decide) (by decide) (by decide),
    replaceAll_plainDigits (by decide) (by decide) (by decide),
    replaceAll_plainDigits (by decide) (by decide) (by decide)]

theorem pass_plainDigits (text : List Char) : pass (plainDigits text) = plainDigits (pass text) := by
  rw [pass, lower_plainDigits, dropFillers_plainDigits, separateMeridiem_plainDigits,
    words_plainDigits, unwords_plainDigits, pass]

/-- Steps that change nothing are left out, which makes no difference to the result. -/
theorem settle_eq_iterate (step : List Char → List Char) (limit : Nat) (text : List Char) :
    settle step limit text = step^[limit] text := by
  induction limit generalizing text with
  | zero => rfl
  | succ limit ih =>
      rw [settle]
      split
      · rename_i settled
        exact (Function.iterate_fixed settled _).symm
      · rw [ih, Function.iterate_succ_apply]

theorem canonical_plainDigits (text : List Char) :
    canonical (plainDigits text) = plainDigits (canonical text) := by
  have passes : Function.Semiconj plainDigits pass pass := fun text => (pass_plainDigits text).symm
  simp only [canonical, settle_eq_iterate, pass_plainDigits, length_plainDigits]
  exact ((passes.iterate_right _) (pass text)).symm

/-! Senses -/

/-- A word that is looked up is found by its letters, so that digits do not matter. -/
theorem find?_plainDigits {lexicon : List (String × α)}
    (noDigit : ∀ entry ∈ lexicon, entry.1.toList.any isDigit = false) (word : List Char) :
    lexicon.find? (·.1.toList == plainDigits word) = lexicon.find? (·.1.toList == word) := by
  induction lexicon with
  | nil => rfl
  | cons entry others ih =>
      obtain ⟨letters, further⟩ := List.forall_mem_cons.mp noDigit
      have same : (entry.1.toList == plainDigits word) = (entry.1.toList == word) := by
        rw [Bool.eq_iff_iff, beq_iff_eq, beq_iff_eq, eq_comm, plainDigits_eq_iff letters, eq_comm]
      rw [List.find?_cons, List.find?_cons, same, ih further]

theorem weekday_ofWord?_plainDigits (word : List Char) :
    Weekday.ofWord? (plainDigits word) = Weekday.ofWord? word := by
  rw [Weekday.ofWord?, find?_plainDigits (by decide), Weekday.ofWord?]

theorem month_ofWord?_plainDigits (word : List Char) :
    Month.ofWord? (plainDigits word) = Month.ofWord? word := by
  rw [Month.ofWord?, find?_plainDigits (by decide), Month.ofWord?]

theorem number_plainDigits (digits : List Char) : number (plainDigits digits) = number digits := by
  rw [number, readDigits_plainDigits, number]

theorem boundedNumber_plainDigits (digits : List Char) (least greatest : Nat) (fault : RangeFault) :
    boundedNumber (plainDigits digits) least greatest fault =
      boundedNumber digits least greatest fault := by
  rw [boundedNumber, number_plainDigits, boundedNumber]

theorem hourOf_plainDigits (digits : List Char) (meridiem : Option (List Char)) :
    hourOf (plainDigits digits) meridiem = hourOf digits meridiem := by
  cases meridiem with
  | none => exact boundedNumber_plainDigits digits 0 23 .hour
  | some meridiem => rw [hourOf, boundedNumber_plainDigits, hourOf]

theorem text?_plain (captures : Captures Slot) (slot : Slot) :
    (captures.rename plainDigit).text? slot = (captures.text? slot).map plainDigits :=
  captures.text?_rename slot

theorem text_plain (captures : Captures Slot) (slot : Slot) :
    (captures.rename plainDigit).text slot = plainDigits (captures.text slot) :=
  captures.text_rename slot

/-- The half of the day is captured as it stands, since a complaint repeats it. -/
theorem Rule.Captured.meridiem_plain (captured : rule.Captured captures) {slot : Slot}
    (isMeridiem : slot ∈ [.meridiem, .firstMeridiem, .secondMeridiem]) :
    (captures.rename plainDigit).text? slot = captures.text? slot := by
  rw [text?_plain]
  cases found : captures.text? slot with
  | none => rfl
  | some half =>
      have isHalf : half ∈ ["am".toList, "pm".toList] := by
        have admits := captured.admits slot half found
        simp only [List.mem_cons, List.not_mem_nil, or_false] at isMeridiem
        rcases isMeridiem with rfl | rfl | rfl
        all_goals exact admits
      rcases List.mem_pair.mp isHalf with rfl | rfl
      all_goals rfl

theorem Rule.Captured.clockOf_plain (captured : rule.Captured captures) :
    clockOf (captures.rename plainDigit) = clockOf captures := by
  have noon : "noon".toList.any isDigit = false := by decide
  unfold clockOf
  simp only [captured.meridiem_plain (show Slot.meridiem ∈ _ by decide), text?_plain]
  cases captures.text? .clockWord with
  | some word => simp only [Option.map_some, plainDigits_eq_iff noon]
  | none =>
      cases captures.text? .hour with
      | none => rfl
      | some hourDigits =>
          simp only [Option.map_some, Option.map_none, hourOf_plainDigits]
          cases captures.text? .minute with
          | none => rfl
          | some minuteDigits => simp only [Option.map_some, boundedNumber_plainDigits]

theorem weekdayOf_plain (captures : Captures Slot) :
    weekdayOf (captures.rename plainDigit) = weekdayOf captures := by
  rw [weekdayOf, text_plain, weekday_ofWord?_plainDigits, weekdayOf]

theorem weekdaysOf_plain (captures : Captures Slot) :
    weekdaysOf (captures.rename plainDigit) = weekdaysOf captures := by
  have overlooks : weekdayAlone.Overlooks plainDigit := overlooks_plainDigit (by decide)
  have meant (found : Occurrence Slot) :
      Weekday.ofWord? (found.rename plainDigit).text = Weekday.ofWord? found.text := by
    rw [Occurrence.text_rename]
    exact weekday_ofWord?_plainDigits found.text
  simp only [weekdaysOf, captures.text_rename, occurrences_rename overlooks, List.filterMap_map,
    Function.comp_def, meant]

theorem monthOf_plain (captures : Captures Slot) :
    monthOf (captures.rename plainDigit) = monthOf captures := by
  rw [monthOf, text_plain, month_ofWord?_plainDigits, monthOf]

theorem turnWords_noDigit : ∀ entry ∈ turnWords, entry.1.toList.any isDigit = false := by
  decide

theorem turnOf_plain (captures : Captures Slot) :
    turnOf (captures.rename plainDigit) = turnOf captures := by
  simp only [turnOf, text_plain, find?_plainDigits turnWords_noDigit,
    filter_isDigit_plainDigits, number_plainDigits]

/-! Rules -/

/-- The sense of a rule is the same for captures in all scripts of digits. -/
def Rule.IgnoresScripts (rule : Rule) : Prop :=
  ∀ {deciding : Rule} {captures}, deciding.Captured captures →
    rule.sense (captures.rename plainDigit) = rule.sense captures

variable {pattern : PhrasePattern}

theorem always_ignoresScripts {phrase : Phrase} :
    Rule.IgnoresScripts ⟨pattern, always phrase⟩ :=
  fun _ => rfl

theorem timed_ignoresScripts {phraseOf : Captures Slot → Clock → Phrase}
    (same : ∀ captures, phraseOf (captures.rename plainDigit) = phraseOf captures) :
    Rule.IgnoresScripts ⟨pattern, fun captures => timed (phraseOf captures) captures⟩ := by
  intro _ captures captured
  simp only [timed, same, captured.clockOf_plain]

theorem counted_ignoresScripts {least greatest : Nat} {fault : RangeFault}
    {phraseOf : Nat → Phrase} :
    Rule.IgnoresScripts ⟨pattern, fun captures => do
      return phraseOf (← boundedNumber (captures.text .count) least greatest fault)⟩ := by
  intro _ captures _
  simp only [text_plain, boundedNumber_plainDigits]

theorem countedDays_ignoresScripts : Rule.IgnoresScripts ⟨pattern, countedDays⟩ := by
  intro _ captures captured
  simp only [countedDays, text_plain, boundedNumber_plainDigits, captured.clockOf_plain]

theorem onDayOfMonth_ignoresScripts : Rule.IgnoresScripts ⟨pattern, onDayOfMonth⟩ := by
  intro _ captures captured
  simp only [onDayOfMonth, text_plain, boundedNumber_plainDigits, captured.clockOf_plain]

theorem twiceADayAtHours_ignoresScripts : Rule.IgnoresScripts ⟨pattern, twiceADayAtHours⟩ := by
  intro _ captures captured
  simp only [twiceADayAtHours, text_plain, hourOf_plainDigits,
    captured.meridiem_plain (show Slot.firstMeridiem ∈ _ by decide),
    captured.meridiem_plain (show Slot.secondMeridiem ∈ _ by decide)]

theorem yearlyOn_ignoresScripts : Rule.IgnoresScripts ⟨pattern, yearlyOn⟩ := by
  intro _ captures captured
  simp only [yearlyOn, monthOf_plain, text_plain, boundedNumber_plainDigits, captured.clockOf_plain]

theorem nthWeekdayOf_ignoresScripts : Rule.IgnoresScripts ⟨pattern, nthWeekdayOf⟩ := by
  intro _ captures captured
  simp only [nthWeekdayOf, turnOf_plain, weekdayOf_plain, captured.clockOf_plain]

theorem weeks_ignoreScripts :
    Rule.IgnoresScripts ⟨pattern, fun captures => do
      return .weeks (← number (captures.text .count))⟩ := by
  intro _ captures _
  simp only [text_plain, number_plainDigits]

theorem idioms_ignoreScripts : ∀ rule ∈ idioms, rule.IgnoresScripts := by
  simp only [idioms, List.forall_mem_cons]
  exact ⟨always_ignoresScripts, always_ignoresScripts, always_ignoresScripts,
    always_ignoresScripts, always_ignoresScripts, List.forall_mem_nil _⟩

theorem intervals_ignoreScripts : ∀ rule ∈ intervals, rule.IgnoresScripts := by
  simp only [intervals, List.forall_mem_cons]
  exact ⟨counted_ignoresScripts, counted_ignoresScripts, countedDays_ignoresScripts,
    countedDays_ignoresScripts, List.forall_mem_nil _⟩

theorem timesOfDay_ignoreScripts : ∀ rule ∈ timesOfDay, rule.IgnoresScripts := by
  simp only [timesOfDay, List.forall_mem_cons]
  exact ⟨timed_ignoresScripts fun _ => rfl, timed_ignoresScripts fun _ => rfl,
    timed_ignoresScripts fun captures => by rw [weekdayOf_plain],
    timed_ignoresScripts fun _ => rfl, timed_ignoresScripts fun _ => rfl,
    timed_ignoresScripts fun captures => by rw [weekdaysOf_plain], List.forall_mem_nil _⟩

theorem monthly_ignoreScripts : ∀ rule ∈ monthly, rule.IgnoresScripts := by
  simp only [monthly, List.forall_mem_cons]
  exact ⟨timed_ignoresScripts fun _ => rfl, onDayOfMonth_ignoresScripts, always_ignoresScripts,
    always_ignoresScripts, List.forall_mem_nil _⟩

theorem twice_ignoreScripts : ∀ rule ∈ twice, rule.IgnoresScripts := by
  simp only [twice, List.forall_mem_cons]
  exact ⟨always_ignoresScripts, twiceADayAtHours_ignoresScripts, List.forall_mem_nil _⟩

theorem weeklyAndYearly_ignoreScripts : ∀ rule ∈ weeklyAndYearly, rule.IgnoresScripts := by
  simp only [weeklyAndYearly, List.forall_mem_cons]
  exact ⟨always_ignoresScripts, always_ignoresScripts, always_ignoresScripts,
    always_ignoresScripts, always_ignoresScripts, yearlyOn_ignoresScripts, List.forall_mem_nil _⟩

theorem approximations_ignoreScripts : ∀ rule ∈ approximations, rule.IgnoresScripts := by
  simp only [approximations, List.forall_mem_cons]
  exact ⟨timed_ignoresScripts fun captures => by rw [weekdayOf_plain],
    nthWeekdayOf_ignoresScripts, timed_ignoresScripts fun _ => rfl, nthWeekdayOf_ignoresScripts,
    weeks_ignoreScripts, List.forall_mem_nil _⟩

theorem rules_ignoreScripts : ∀ rule ∈ rules, rule.IgnoresScripts := by
  simp only [rules, List.forall_mem_append]
  exact ⟨⟨⟨⟨⟨⟨idioms_ignoreScripts, intervals_ignoreScripts⟩, timesOfDay_ignoreScripts⟩,
    monthly_ignoreScripts⟩, twice_ignoreScripts⟩, weeklyAndYearly_ignoreScripts⟩,
    approximations_ignoreScripts⟩

theorem otherRules_nameNoDigit : ∀ rule ∈ otherRules, rule.pattern.namesNoDigit = true := by
  decide

theorem reading?_plainDigits (inRules : rule ∈ rules) (noDigit : rule.pattern.namesNoDigit = true)
    (text : List Char) : rule.reading? (plainDigits text) = rule.reading? text := by
  rw [Rule.reading?, plainDigits, whole?_rename (overlooks_plainDigit noDigit), Rule.reading?]
  cases read : rule.pattern.whole? text with
  | none => rfl
  | some captures =>
      exact congrArg some (rules_ignoreScripts rule inRules (Rule.captured_of_whole? inRules read))

/-! The first of the month -/

/-- A text about the first of the month is also one about a numbered day, which is written 1st. -/
theorem isSome_dayOfMonthRule_of_firstOfMonthRule
    (read : (firstOfMonthRule.pattern.whole? text).isSome) :
    (dayOfMonthRule.pattern.whole? text).isSome := by
  obtain ⟨captures, read⟩ := Option.isSome_iff_exists.mp read
  obtain ⟨on, _, rfl, readsOn, the, _, rfl, readsThe, day, behind, rfl, readsDay, readsBehind⟩ :=
    matches_of_whole? read
  have first : dayNumber.Matches day := by
    rw [show day = "1st".toList from matches_literal.mp readsDay]
    have digit : CharSet.digit.contains '1' = true := by decide
    have ending : (optional ordinalEnding : PhrasePattern).Matches "st".toList :=
      Or.inl (Or.inl (matches_literal.mpr rfl))
    exact ⟨['1'], "st".toList, rfl, ⟨['1'], [], rfl, ⟨'1', rfl, digit⟩, Or.inr rfl⟩, ending⟩
  have reads : dayOfMonthRule.pattern.Matches (on ++ (the ++ (day ++ behind))) :=
    ⟨on, _, rfl, readsOn, the, _, rfl, readsThe, day, behind, rfl, first, readsBehind⟩
  rw [whole?, Option.isSome_map]
  exact isSome_toEnd?_of_matches (by decide) reads

/-- A rule can be left out if it answers like the others and each of its texts is read by another. -/
theorem recognizeBy_cons_plain {table : List Rule}
    (alike : ∀ other ∈ table, rule.AnswersLike other)
    (covered : (rule.reading? text).isSome → ∃ other ∈ table, (other.reading? text).isSome) :
    (recognizeBy (rule :: table) text).map (Option.map Reading.plain) =
      (recognizeBy table text).map (Option.map Reading.plain) := by
  unfold recognizeBy
  rw [List.findSome?_cons]
  cases read : rule.reading? text with
  | none => rfl
  | some sense =>
      have found : (table.findSome? (·.reading? text)).isSome := by
        rw [read] at covered
        exact List.findSome?_isSome_iff.mpr (covered rfl)
      obtain ⟨other, first⟩ := Option.isSome_iff_exists.mp found
      obtain ⟨deciding, member, readOther⟩ := List.exists_of_findSome?_eq_some first
      rw [first]
      dsimp only
      rw [map_plain_some, map_plain_some, alike deciding member text sense other read readOther]

/-- Without the rule for the first of the month the same is said of every text. -/
theorem recognize_plain_otherRules (text : List Char) :
    (recognize text).map (Option.map Reading.plain) =
      (recognizeBy otherRules text).map (Option.map Reading.plain) := by
  have alike : ∀ first ∈ firstOfMonthRule :: otherRules, ∀ second ∈ firstOfMonthRule :: otherRules,
      first.AnswersLike second := fun first inFirst second inSecond =>
    answersLike_of_mem_rules first (rules_perm.mem_iff.mpr inFirst) second
      (rules_perm.mem_iff.mpr inSecond)
  rw [← recognizeBy_rules, recognizeBy_plain_of_answersLike rules_perm alike]
  refine recognizeBy_cons_plain firstOfMonth_answersLike fun read => ⟨dayOfMonthRule, ?_, ?_⟩
  · exact List.mem_append_right _ (List.mem_cons_of_mem _ List.mem_cons_self)
  · rw [Rule.reading?, Option.isSome_map] at read ⊢
    exact isSome_dayOfMonthRule_of_firstOfMonthRule read

/-- Rules say the same of a text in all scripts of digits, but for the wording. -/
theorem recognize_plainDigits (text : List Char) :
    (recognize (plainDigits text)).map (Option.map Reading.plain) =
      (recognize text).map (Option.map Reading.plain) := by
  have same : otherRules.map (·.reading? (plainDigits text)) = otherRules.map (·.reading? text) := by
    refine List.map_congr_left fun rule listed => ?_
    exact reading?_plainDigits (rules_perm.mem_iff.mpr (List.mem_cons_of_mem _ listed))
      (otherRules_nameNoDigit rule listed) text
  have first : otherRules.findSome? (·.reading? (plainDigits text)) =
      otherRules.findSome? (·.reading? text) := by
    simpa only [List.findSome?_map, Function.id_comp] using congrArg (List.findSome? id) same
  rw [recognize_plain_otherRules, recognize_plain_otherRules text, recognizeBy, first, recognizeBy]

/-! Loose parts -/

theorem findWeekdays_plainDigits (phrase : List Char) :
    findWeekdays (plainDigits phrase) = findWeekdays phrase := by
  have overlooks : weekdayMention.Overlooks plainDigit := overlooks_plainDigit (by decide)
  have meant (found : Occurrence Slot) :
      Weekday.ofWord? ((found.rename plainDigit).captures.text .weekday) =
        Weekday.ofWord? (found.captures.text .weekday) := by
    rw [← weekday_ofWord?_plainDigits (found.captures.text .weekday), ← text_plain]
    rfl
  simp only [findWeekdays, plainDigits, occurrences_rename overlooks, List.filterMap_map,
    Function.comp_def, meant]

theorem dayInterval?_plainDigits (phrase : List Char) :
    dayInterval? (plainDigits phrase) = (dayInterval? phrase).map plainDigits := by
  have overlooks : intervalMention.Overlooks plainDigit := overlooks_plainDigit (by decide)
  have letters : "day".toList.any isDigit = false := by decide
  rw [dayInterval?, plainDigits, occurrences_rename overlooks, dayInterval?]
  cases intervalMention.occurrences phrase with
  | nil => rfl
  | cons found others =>
      have captured (slot : Slot) : (found.rename plainDigit).captures.text slot =
          plainDigits (found.captures.text slot) := text_plain found.captures slot
      simp only [List.map_cons, captured, plainDigits_eq_iff letters]
      split <;> rfl

/-- A phrase is read loosely in the same way in all scripts of digits. -/
theorem readLoosely_plainDigits (phrase : List Char) (clock : Clock) :
    readLoosely (plainDigits phrase) clock = readLoosely phrase clock := by
  have cue : dailyCue.occurs (plainDigits phrase) = dailyCue.occurs phrase :=
    occurs_rename (overlooks_plainDigit (by decide)) phrase
  rw [readLoosely, findWeekdays_plainDigits, dayInterval?_plainDigits, cue, readLoosely]
  cases dayInterval? phrase with
  | none => rfl
  | some digits => simp only [Option.map_some, dayIntervalReading, readDigits_plainDigits]

end Recurrence.Phrase
