import Recurrence.Proofs.LooseReadings
import Recurrence.Proofs.Pattern.Splits

namespace Recurrence

/-! Phrases to which a time of day is added. The days that a phrase names are read in the same way
whether a time follows or not, so the time changes nothing but the first two fields of the schedule.
Where the days are refused already, they are refused in the same words. -/

open Crontab Phrase Pattern

/-! Phrases at other times -/

/-- Phrases of which the time of day changes nothing but the time. -/
def Steady (phrase : Clock → Phrase) : Prop :=
  ∃ dayOfMonth month dayOfWeek, ∀ clock,
    (phrase clock).line = lineAt clock dayOfMonth month dayOfWeek ∧
      (phrase clock).confidence = (phrase .midnight).confidence ∧
      (phrase clock).warning? = (phrase .midnight).warning?

/-- A schedule from its time and the fields for its days. -/
def scheduleAt (clock : Clock) (days : List Char) : List Char :=
  Text.signed clock.minute ++ ' ' :: (Text.signed clock.hour ++ ' ' :: days)

/-- What a reading becomes when a time is added to its phrase, one that is known or out of range. -/
structure Reading.BecomesAt (time : Option Clock) (reading later : Reading) : Prop where
  refused : ∀ complaint, reading.outcome = .error complaint → later.outcome = .error complaint
  outOfRange : time = none → ∃ complaint, later.outcome = .error complaint
  moved : ∀ clock, time = some clock → ∀ schedule, reading.outcome = .ok schedule →
    (∃ days, schedule = scheduleAt .midnight days ∧ later.outcome = .ok (scheduleAt clock days)) ∧
      later.confidence = reading.confidence ∧ later.approximate = reading.approximate ∧
      later.warning = reading.warning

theorem lineAt_text (clock : Clock) (dayOfMonth month dayOfWeek : Term) :
    (lineAt clock dayOfMonth month dayOfWeek).text = scheduleAt clock
      (Text.joinWith " " [dayOfMonth.text, month.text, dayOfWeek.text]) := by
  simp [lineAt, Line.text, Line.terms, Term.value, Term.text, Text.joinWith, List.intercalate,
    scheduleAt]

theorem Phrase.warning_reading (phrase : Phrase) :
    phrase.reading.warning = phrase.warning? ∧
      phrase.reading.approximate = phrase.warning?.isSome := by
  unfold reading
  split
  · rename_i warned
    exact ⟨warned.symm, by rw [warned]; rfl⟩
  · rename_i unwarned
    exact ⟨unwarned.symm, by rw [unwarned]; rfl⟩

theorem Phrase.outcome_reading (phrase : Phrase) : phrase.reading.outcome = .ok phrase.line.text := by
  unfold reading
  split <;> rfl

variable {time : WrittenTime} {known : Option Clock} {phrase : Clock → Phrase}

theorem Steady.becomesAt (steady : Steady phrase) (clock : Clock) :
    (phrase .midnight).reading.BecomesAt (some clock) (phrase clock).reading where
  refused complaint failed := by
    rw [Phrase.outcome_reading] at failed
    cases failed
  outOfRange unknown := by cases unknown
  moved _ told schedule succeeded := by
    cases told
    obtain ⟨dayOfMonth, month, dayOfWeek, same⟩ := steady
    rw [Phrase.outcome_reading, (same .midnight).1, lineAt_text] at succeeded
    cases succeeded
    refine ⟨⟨_, rfl, ?_⟩, ?_, ?_, ?_⟩
    · rw [Phrase.outcome_reading, (same clock).1, lineAt_text]
    · rw [Phrase.confidence_reading, Phrase.confidence_reading, (same clock).2.1]
    · rw [(Phrase.warning_reading _).2, (Phrase.warning_reading _).2, (same clock).2.2]
    · rw [(Phrase.warning_reading _).1, (Phrase.warning_reading _).1, (same clock).2.2]

/-! Senses that read the time last -/

/-- Captures that are the same but for the time of day. -/
def AgreeButForTime (captures later : Captures Slot) : Prop :=
  ∀ slot ∉ clockSlots, later.text? slot = captures.text? slot

/-- What is meant is settled before the time is read, whatever the time is. -/
def ReadsTimeLast (sense : Captures Slot → Sense Phrase) : Prop :=
  ∀ captures, ∃ front : Sense (Clock → Phrase), (∀ phrase, front = .ok phrase → Steady phrase) ∧
    ∀ later, AgreeButForTime captures later →
      sense later = front >>= fun phrase => (clockOf later).map phrase

theorem AgreeButForTime.text_eq {captures later : Captures Slot} {slot : Slot}
    (agree : AgreeButForTime captures later) (other : slot ∉ clockSlots) :
    later.text slot = captures.text slot := by
  rw [Captures.text, agree slot other, Captures.text]

theorem AgreeButForTime.weekdayOf_eq {captures later : Captures Slot}
    (agree : AgreeButForTime captures later) : weekdayOf later = weekdayOf captures := by
  rw [weekdayOf, agree.text_eq (by decide), weekdayOf]

theorem AgreeButForTime.monthOf_eq {captures later : Captures Slot}
    (agree : AgreeButForTime captures later) : monthOf later = monthOf captures := by
  rw [monthOf, agree.text_eq (by decide), monthOf]

theorem AgreeButForTime.weekdaysOf_eq {captures later : Captures Slot}
    (agree : AgreeButForTime captures later) : weekdaysOf later = weekdaysOf captures := by
  rw [weekdaysOf, agree.text_eq (by decide), weekdaysOf]

theorem timed_readsTimeLast {phraseOf : Captures Slot → Clock → Phrase}
    (own : ∀ captures later, AgreeButForTime captures later → phraseOf later = phraseOf captures)
    (steady : ∀ captures, Steady (phraseOf captures)) :
    ReadsTimeLast fun captures => timed (phraseOf captures) captures := by
  intro captures
  refine ⟨.ok (phraseOf captures), fun phrase same => ?_, fun later agree => ?_⟩
  · cases same
    exact steady captures
  · dsimp only
    rw [own captures later agree]
    rfl

theorem numbered_readsTimeLast {number : Captures Slot → Sense Nat}
    (phraseOf : Captures Slot → Nat → Clock → Phrase)
    (ownNumber : ∀ captures later, AgreeButForTime captures later → number later = number captures)
    (own : ∀ captures later, AgreeButForTime captures later → phraseOf later = phraseOf captures)
    (steady : ∀ captures n, Steady (phraseOf captures n)) :
    ReadsTimeLast fun captures => do
      let n ← number captures
      return phraseOf captures n (← clockOf captures) := by
  intro captures
  refine ⟨(number captures).map (phraseOf captures), fun phrase same => ?_, fun later agree => ?_⟩
  · cases read : number captures with
    | error fault =>
        rw [read] at same
        cases same
    | ok n =>
        rw [read] at same
        cases same
        exact steady captures n
  · simp only [ownNumber captures later agree, own captures later agree]
    cases number captures with
    | error fault => rfl
    | ok n => cases clockOf later <;> rfl

theorem countedDays_readsTimeLast : ReadsTimeLast countedDays :=
  numbered_readsTimeLast (fun _ => .days)
    (fun _ _ agree => by rw [agree.text_eq (by decide)]) (fun _ _ _ => rfl)
    fun _ _ => ⟨_, _, _, fun _ => ⟨rfl, rfl, rfl⟩⟩

theorem onDayOfMonth_readsTimeLast : ReadsTimeLast onDayOfMonth :=
  numbered_readsTimeLast (fun _ => .dayOfMonth)
    (fun _ _ agree => by rw [agree.text_eq (by decide)]) (fun _ _ _ => rfl)
    fun _ _ => ⟨_, _, _, fun _ => ⟨rfl, rfl, rfl⟩⟩

theorem yearlyOn_readsTimeLast : ReadsTimeLast yearlyOn :=
  numbered_readsTimeLast (fun captures => .yearly (monthOf captures))
    (fun _ _ agree => by rw [agree.text_eq (by decide), agree.monthOf_eq])
    (fun _ _ agree => by rw [agree.monthOf_eq])
    fun _ _ => ⟨_, _, _, fun _ => ⟨rfl, rfl, rfl⟩⟩

theorem nthWeekdayOf_readsTimeLast : ReadsTimeLast nthWeekdayOf :=
  numbered_readsTimeLast (fun captures n => .nthWeekday n (weekdayOf captures))
    (fun _ _ agree => by rw [turnOf, agree.text_eq (by decide), turnOf])
    (fun _ _ agree => by rw [agree.weekdayOf_eq])
    fun _ _ => ⟨_, _, _, fun _ => ⟨rfl, rfl, rfl⟩⟩

/-! Cores of phrases -/

/-- What stands in front of a time, and what may stand in between. Nothing of it belongs to a time,
and where it ends can be told from the time behind it. -/
structure LeavesRoom (core between : PhrasePattern) : Prop where
  plain : core.isPlain = true ∧ between.isPlain = true
  splits : SplitsUniquely core (.seq between maybeAtTime)
  silent : (∀ slot ∈ clockSlots, slot ∉ core.slots) ∧ between.slots = []
  noAt : ∀ set ∈ between.sets, set.contains 'a' = false

/-- The pieces of the phrases that may end in a time, up to the one where only "of the month" may
follow, and that piece. -/
def cores : List (List PhrasePattern × List PhrasePattern) := [
  (["every", blanks, capture .weekday weekdayWord], []),
  ([optional (.seq (anyOf ["on", "every"]) blanks), plural "weekday"], []),
  ([optional (.seq (anyOf ["on", "every"]) blanks), plural "weekend"], []),
  (["every", blanks, capture .weekdays weekdayList], []),
  ([optional (.seq "on" blanks), optional (.seq "the" blanks), "1st", blanks,
    optional (.seq "day" blanks), optional (.seq "of" blanks), optional everyOrEach, blanks,
    "month"], []),
  ([optional (.seq "on" blanks), optional (.seq "the" blanks), dayNumber, blanks,
    optional (.seq "day" blanks), optional (.seq "of" blanks), optional everyOrEach, blanks,
    "month"], []),
  ([everyOrEach, blanks, optional (inOrder ["year", blanks, "on", blanks]),
    capture .month monthWord, blanks, capture .dayOfMonth shortNumber, optional ordinalEnding], []),
  ([everyOrThe, "last", blanks, capture .weekday weekdayWord], [maybeOfMonth]),
  ([optional (.seq "every" blanks), optional (.seq "the" blanks),
    capture .turn (.seq digits ordinalEnding), blanks, capture .weekday weekdayWord],
    [maybeOfMonth]),
  ([everyOrThe, "last", blanks, "day"], [maybeOfMonth]),
  ([optional (.seq "every" blanks), optional (.seq "the" blanks), capture .turn turnWord, blanks,
    capture .weekday weekdayWord], [maybeOfMonth])]

/-- The rules that take a time or go without. -/
def flexibleRules : List Rule :=
  timesOfDay.drop 2 ++ monthly.take 2 ++ weeklyAndYearly.drop 5 ++ approximations.take 4

theorem flexibleRules_patterns : flexibleRules.map (·.pattern) =
    cores.map fun core => inOrder (core.1 ++ (core.2 ++ [maybeAtTime])) := by
  rfl

def countedDaysCore : List PhrasePattern × List PhrasePattern :=
  (["every", blanks, capture .count digits, blanks, plural "day"], [])

theorem cores_cut : ∀ core ∈ countedDaysCore :: cores,
    cutsBefore 500 (inOrder core.1) (.seq (inOrder core.2) maybeAtTime) = true := by
  decide +kernel

theorem cores_leaveRoom {core : List PhrasePattern × List PhrasePattern}
    (listed : core ∈ countedDaysCore :: cores) :
    LeavesRoom (inOrder core.1) (inOrder core.2) where
  plain := by
    revert core
    decide
  splits := splitsUniquely_of_cutsBefore (cores_cut core listed)
  silent := by
    revert core
    decide
  noAt := by
    revert core
    decide

/-! Phrases with room for a time -/

variable {core between : PhrasePattern} {text front rest : List Char} {captures : Captures Slot}
  {place : Cursor} {way : Way Slot}

theorem Untimed.of_append {lead back : Captures Slot} (untimed : Untimed (lead ++ back)) :
    Untimed back := by
  intro slot listed
  have nothing := untimed slot listed
  rw [Captures.text?_append, Option.or_eq_none_iff] at nothing
  exact nothing.2

/-- Either there is no time in a phrase, or the one at its end is captured. -/
theorem LeavesRoom.untimed_or_ends (room : LeavesRoom core between)
    (read : (seq core (seq between maybeAtTime)).whole? text = some captures) :
    (∃ front rest, text = front ++ rest ∧ core.Matches front ∧ between.Matches rest) ∨
      ∃ time, EndsIn time text ∧ Tells time.clock? (clockOf captures) ∧ ¬ Untimed captures := by
  obtain ⟨way, found, rfl⟩ := Option.map_eq_some_iff.mp read
  have ended : way.2.rest = [] := by simpa using List.find?_some found
  obtain ⟨first, inCore, _, inBehind, rfl⟩ := mem_ways_seq.mp (List.mem_of_find?_eq_some found)
  obtain ⟨second, inBetween, last, inMaybe, rfl⟩ := mem_ways_seq.mp inBehind
  obtain ⟨front, frontCut, readsFront⟩ := matches_of_mem_ways inCore
  obtain ⟨rest, restCut, readsRest⟩ := matches_of_mem_ways inBetween
  have whole : text = front ++ (rest ++ second.2.rest) := by rw [← restCut, ← frontCut]; rfl
  rcases mem_ways_optional.mp inMaybe with timed | rfl
  · rw [atTime_ways] at timed
    obtain ⟨blank, inBlank, tail, inTail, rfl⟩ := mem_ways_seq.mp timed
    obtain ⟨blankText, blankCut, _⟩ := matches_of_mem_ways inBlank
    obtain ⟨time, tells, isTimed, ends⟩ := clockTail_way inTail
    have nothing : second.1 = [] ∧ blank.1 = [] :=
      ⟨captures_eq_nil room.silent.2 inBetween, captures_eq_nil rfl inBlank⟩
    refine Or.inr ⟨time, ?_, ?_, fun untimed => ?_⟩
    · have endsThere := ends (front ++ (rest ++ blankText)) ended
      rwa [List.append_assoc, List.append_assoc, ← blankCut, ← whole] at endsThere
    · rw [(untimed_of_silent room.silent.1 inCore).clockOf_append, nothing.1, nothing.2]
      exact tells
    · rw [nothing.1, nothing.2] at untimed
      exact isTimed (Untimed.of_append untimed)
  · refine Or.inl ⟨front, rest, ?_, readsFront, readsRest⟩
    rw [whole, show second.2.rest = [] from ended, List.append_nil]

theorem atTime_matches {time : WrittenTime} (proper : time.IsProper) :
    atTime.Matches (" at ".toList ++ time.text) :=
  ⟨[' '], _, rfl, blanks_matches (by decide), "at".toList, _, rfl, matches_literal.mpr rfl, [' '], _,
    rfl, blanks_matches (by decide), proper.matches⟩

theorem endsIn_at {time : WrittenTime} (proper : time.IsProper) (text : List Char) :
    EndsIn time (text ++ (" at ".toList ++ time.text)) :=
  ⟨proper, text ++ [' '], [' '], by simp, by decide⟩

/-- What follows the core adds nothing but the time. -/
theorem agreeButForTime_of_tails {one other : Captures Slot} {more others : List Char}
    {lead : Captures Slot} (onlyOne : ∀ slot ∉ clockSlots, one.text? slot = none)
    (onlyOther : ∀ slot ∉ clockSlots, other.text? slot = none) :
    AgreeButForTime (Captures.extend lead more ++ one) (Captures.extend lead others ++ other) := by
  intro slot outside
  simp only [Captures.text?_append, Captures.text?_extend, onlyOne slot outside,
    onlyOther slot outside]

theorem LeavesRoom.onlyTime (room : LeavesRoom core between) {further : Way Slot}
    (read : (seq between maybeAtTime).toEnd? place = some further) :
    ∀ slot ∉ clockSlots, further.1.text? slot = none := by
  have timeSlots : ∀ slot ∈ maybeAtTime.slots, slot ∈ clockSlots := by decide
  intro slot outside
  refine text?_eq_none_of_not_mem_slots (fun listed => ?_) (List.mem_of_find?_eq_some read)
  rw [slots_seq, room.silent.2] at listed
  exact outside (timeSlots slot listed)

/-- A time behind a phrase is captured, and nothing else of the phrase is captured differently. -/
theorem LeavesRoom.exists_later (room : LeavesRoom core between) {time : WrittenTime}
    (proper : time.IsProper) (readsFront : core.Matches front) (readsRest : between.Matches rest) :
    ∃ captures later, (seq core (seq between maybeAtTime)).whole? (front ++ rest) = some captures ∧
      (seq core (seq between maybeAtTime)).whole?
        ((front ++ rest) ++ (" at ".toList ++ time.text)) = some later ∧
      AgreeButForTime captures later ∧ Tells time.clock? (clockOf later) := by
  have plainTail : (seq between maybeAtTime).isPlain = true := by
    rw [isPlain, room.plain.2]
    decide
  have without : (seq between maybeAtTime).Matches rest :=
    ⟨rest, [], (List.append_nil rest).symm, readsRest, Or.inr rfl⟩
  have timed : (seq between maybeAtTime).Matches (rest ++ (" at ".toList ++ time.text)) :=
    ⟨rest, _, rfl, readsRest, Or.inl (atTime_matches proper)⟩
  obtain ⟨way, further, readCore, readTail, read⟩ :=
    whole?_of_splitsUniquely room.plain.1 plainTail room.splits readsFront without
  obtain ⟨sameWay, later, readCoreAgain, readTimed, readLater⟩ :=
    whole?_of_splitsUniquely room.plain.1 plainTail room.splits readsFront timed
  cases readCore.symm.trans readCoreAgain
  rw [← List.append_assoc] at readLater
  refine ⟨_, _, read, readLater,
    agreeButForTime_of_tails (room.onlyTime readTail) (room.onlyTime readTimed), ?_⟩
  rcases room.untimed_or_ends readLater with untimed | ends
  · -- The rest of the phrase has no "a", so the time is not left out.
    obtain ⟨other, behind, same, readsOther, readsBehind⟩ := untimed
    rw [List.append_assoc] at same
    have sameFront : front = other := room.splits readsFront timed readsOther
      ⟨behind, [], (List.append_nil behind).symm, readsBehind, Or.inr rfl⟩ same
    rw [sameFront] at same
    have letter : 'a' ∈ behind := by
      rw [← List.append_cancel_left same]
      simp
    obtain ⟨set, listed, contained⟩ := exists_set_of_matches readsBehind 'a' letter
    rw [room.noAt set listed] at contained
    cases contained
  · obtain ⟨other, endsThere, tells, _⟩ := ends
    rwa [(endsIn_at proper _).unique endsThere] at tells

theorem exists_core_of_flexible {rule : Rule} (flexible : rule ∈ flexibleRules) :
    ∃ core between, LeavesRoom core between ∧
      rule.pattern.ways = (seq core (seq between maybeAtTime)).ways := by
  have listed : rule.pattern ∈ flexibleRules.map (·.pattern) := List.mem_map_of_mem flexible
  rw [flexibleRules_patterns] at listed
  obtain ⟨core, inCores, same⟩ := List.mem_map.mp listed
  have nonempty : ∀ core ∈ cores, core.1 ≠ [] := by decide
  refine ⟨_, _, cores_leaveRoom (List.mem_cons_of_mem _ inCores), ?_⟩
  rw [← same, ways_inOrder_append (nonempty core inCores) (by simp)]
  exact ways_seq_congr (ways_inOrder_concat _ _)

theorem exists_later_of_flexible {rule : Rule} (flexible : rule ∈ flexibleRules)
    (read : rule.pattern.whole? text = some captures) (untimed : Untimed captures)
    {time : WrittenTime} (proper : time.IsProper) :
    ∃ later, rule.pattern.whole? (text ++ (" at ".toList ++ time.text)) = some later ∧
      AgreeButForTime captures later ∧ Tells time.clock? (clockOf later) := by
  obtain ⟨core, between, room, shape⟩ := exists_core_of_flexible flexible
  have samePattern (text : List Char) :
      rule.pattern.whole? text = (seq core (seq between maybeAtTime)).whole? text := by
    rw [whole?, shape, whole?]
  rw [samePattern] at read ⊢
  rcases room.untimed_or_ends read with cut | ends
  · obtain ⟨front, rest, rfl, readsFront, readsRest⟩ := cut
    obtain ⟨known, later, readKnown, readLater, agree, tells⟩ :=
      room.exists_later proper readsFront readsRest
    cases read.symm.trans readKnown
    exact ⟨later, readLater, agree, tells⟩
  · obtain ⟨_, _, _, timed⟩ := ends
    exact absurd untimed timed

/-! Rules that take a time -/

/-- Every so many days. -/
def countedDaysRule : Rule := ⟨everyCount "day", countedDays⟩

/-- The two phrases for every day. -/
def dailyIdioms : List Rule := (idioms.drop 2).take 2

/-- The rules for phrases to which a time may be added, by themselves or by another rule. -/
def timeTakingRules : List Rule := dailyIdioms ++ countedDaysRule :: flexibleRules

theorem countedDaysRule_mem : countedDaysRule ∈ intervals :=
  List.mem_cons_of_mem _ (List.mem_cons_of_mem _ (List.mem_cons_of_mem _ List.mem_cons_self))

theorem timeTakingRules_subset : timeTakingRules ⊆ rules := by
  intro rule listed
  simp only [timeTakingRules, flexibleRules, List.mem_append, List.mem_cons] at listed
  simp only [rules, List.mem_append]
  rcases listed with idiom | rfl | ((time | month) | year) | approximation
  · simp only [List.mem_of_mem_drop (List.mem_of_mem_take idiom), true_or]
  · simp only [countedDaysRule_mem, or_true, true_or]
  · simp only [List.mem_of_mem_drop time, or_true, true_or]
  · simp only [List.mem_of_mem_take month, or_true, true_or]
  · simp only [List.mem_of_mem_drop year, or_true, true_or]
  · simp only [List.mem_of_mem_take approximation, or_true]

theorem earlierRules_subset : earlierRules ⊆ rules := by
  rw [rules_eq]
  exact List.subset_append_left _ _

theorem exists_later_of_countedDays
    (read : countedDaysRule.pattern.whole? text = some captures)
    {time : WrittenTime} (proper : time.IsProper) :
    ∃ later, countedDaysAtRule.pattern.whole? (text ++ (" at ".toList ++ time.text)) = some later ∧
      AgreeButForTime captures later ∧ Tells time.clock? (clockOf later) := by
  have room : LeavesRoom (everyCount "day") .empty := cores_leaveRoom List.mem_cons_self
  have splits : SplitsUniquely (everyCount "day") atTime := by
    have among {text : List Char} (reads : atTime.Matches text) :
        (seq .empty maybeAtTime).Matches text := ⟨[], text, rfl, rfl, Or.inl reads⟩
    intro front back other rest readsFront readsBack readsOther readsRest same
    exact room.splits readsFront (among readsBack) readsOther (among readsRest) same
  obtain ⟨way, found, rfl⟩ := Option.map_eq_some_iff.mp read
  obtain ⟨sameWay, further, readCore, readTime, readLater⟩ := whole?_of_splitsUniquely
    room.plain.1 (by decide) splits (matches_of_whole? read) (atTime_matches proper)
  cases found.symm.trans readCore
  refine ⟨_, readLater, fun slot outside => ?_,
    takesTime_countedDaysAtRule.tells readLater (endsIn_at proper text)⟩
  have timeSlots : ∀ slot ∈ atTime.slots, slot ∈ clockSlots := by decide
  rw [Captures.text?_append, Captures.text?_extend, text?_eq_none_of_not_mem_slots
    (fun listed => outside (timeSlots slot listed)) (List.mem_of_find?_eq_some readTime),
    Option.or_none]

theorem exists_later_of_dailyIdiom {rule : Rule} (idiom : rule ∈ dailyIdioms)
    (read : rule.pattern.whole? text = some captures) {time : WrittenTime} (proper : time.IsProper) :
    ∃ daily ∈ dailyRules, ∃ later,
      daily.pattern.whole? (text ++ (" at ".toList ++ time.text)) = some later ∧
      Tells time.clock? (clockOf later) := by
  have readable : ∃ daily ∈ dailyRules,
      daily.pattern.Matches (text ++ (" at ".toList ++ time.text)) := by
    have reads := matches_of_whole? read
    simp only [dailyIdioms, idioms, List.drop_succ_cons, List.drop_zero, List.take_succ_cons,
      List.take_zero, List.mem_cons, List.not_mem_nil, or_false] at idiom
    rcases idiom with rfl | rfl
    · obtain ⟨every, _, rfl, readsEvery, gap, day, rfl, readsGap, readsDay⟩ := reads
      have space : (blanks : PhrasePattern).Matches [' '] := blanks_matches (by decide)
      refine ⟨_, List.mem_cons_self, every ++ (gap ++ (day ++ [' '])),
        "at".toList ++ ([' '] ++ time.text), by simp, Or.inl ?_, ?_⟩
      · exact ⟨every, _, rfl, readsEvery, gap, _, rfl, readsGap, day, _, rfl, readsDay, space⟩
      · exact ⟨_, _, rfl, matches_literal.mpr rfl, [' '], _, rfl, space, proper.matches⟩
    · exact ⟨_, List.mem_cons_of_mem _ List.mem_cons_self, text, _, rfl, reads,
        atTime_matches proper⟩
  obtain ⟨daily, inRules, reads⟩ := readable
  obtain ⟨front, takes⟩ := takesTime_dailyRules inRules
  have plain : ∀ rule ∈ dailyRules, rule.pattern.isPlain = true := by decide
  have readsAll : (daily.pattern.toEnd? (.start (text ++ (" at ".toList ++ time.text)))).isSome :=
    isSome_toEnd?_of_matches (plain daily inRules) reads
  obtain ⟨way, found⟩ := Option.isSome_iff_exists.mp readsAll
  have readLater : daily.pattern.whole? (text ++ (" at ".toList ++ time.text)) = some way.1 :=
    congrArg (Option.map Prod.fst) found
  exact ⟨daily, inRules, way.1, readLater, takes.tells readLater (endsIn_at proper text)⟩

theorem flexibleRules_readTimeLast {rule : Rule} (flexible : rule ∈ flexibleRules) :
    ReadsTimeLast rule.sense := by
  simp only [flexibleRules, List.mem_append] at flexible
  rcases flexible with ((time | month) | year) | approximation
  · simp only [timesOfDay, List.drop_succ_cons, List.drop_zero, List.mem_cons, List.not_mem_nil,
      or_false] at time
    rcases time with rfl | rfl | rfl | rfl
    · exact timed_readsTimeLast (fun _ _ agree => by rw [agree.weekdayOf_eq])
        fun _ => ⟨_, _, _, fun _ => ⟨rfl, rfl, rfl⟩⟩
    · exact timed_readsTimeLast (fun _ _ _ => rfl) fun _ => ⟨_, _, _, fun _ => ⟨rfl, rfl, rfl⟩⟩
    · exact timed_readsTimeLast (fun _ _ _ => rfl) fun _ => ⟨_, _, _, fun _ => ⟨rfl, rfl, rfl⟩⟩
    · exact timed_readsTimeLast (fun _ _ agree => by rw [agree.weekdaysOf_eq])
        fun _ => ⟨_, _, _, fun _ => ⟨rfl, rfl, rfl⟩⟩
  · simp only [monthly, List.take_succ_cons, List.take_zero, List.mem_cons, List.not_mem_nil,
      or_false] at month
    rcases month with rfl | rfl
    · exact timed_readsTimeLast (fun _ _ _ => rfl) fun _ => ⟨_, _, _, fun _ => ⟨rfl, rfl, rfl⟩⟩
    · exact onDayOfMonth_readsTimeLast
  · simp only [weeklyAndYearly, List.drop_succ_cons, List.drop_zero, List.mem_cons,
      List.not_mem_nil, or_false] at year
    cases year
    exact yearlyOn_readsTimeLast
  · simp only [approximations, List.take_succ_cons, List.take_zero, List.mem_cons,
      List.not_mem_nil, or_false] at approximation
    rcases approximation with rfl | rfl | rfl | rfl
    · exact timed_readsTimeLast (fun _ _ agree => by rw [agree.weekdayOf_eq])
        fun _ => ⟨_, _, _, fun _ => ⟨rfl, rfl, rfl⟩⟩
    · exact nthWeekdayOf_readsTimeLast
    · exact timed_readsTimeLast (fun _ _ _ => rfl) fun _ => ⟨_, _, _, fun _ => ⟨rfl, rfl, rfl⟩⟩
    · exact nthWeekdayOf_readsTimeLast

/-! What is said of a phrase and of the same phrase with a time -/

theorem clockOf_untimed (untimed : Untimed captures) : clockOf captures = .ok .midnight := by
  rw [clockOf, untimed .clockWord (by decide), untimed .hour (by decide)]

/-- A text that some rule reads as a phrase at a time, and the phrase is the one that was meant at
midnight. -/
def MeansAt (time : Option Clock) (told : Sense Phrase) (text : List Char) : Prop :=
  ∃ front : Sense (Clock → Phrase), (∀ phrase, front = .ok phrase → Steady phrase) ∧
    (readingOf told).map Reading.plain =
      (readingOf (front.map (· .midnight))).map Reading.plain ∧
    ∃ later ∈ rules, ∃ sense, Tells time sense ∧
      later.reading? text = some (front >>= fun phrase => sense.map phrase)

theorem ReadsTimeLast.meansAt {sense : Captures Slot → Sense Phrase} (reads : ReadsTimeLast sense)
    (untimed : Untimed captures) {later : Rule} (inRules : later ∈ rules) (same : later.sense = sense)
    {others : Captures Slot} (read : later.pattern.whole? text = some others)
    (agree : AgreeButForTime captures others) {time : Option Clock}
    (tells : Tells time (clockOf others)) : MeansAt time (sense captures) text := by
  obtain ⟨front, steady, onward⟩ := reads captures
  refine ⟨front, steady, ?_, later, inRules, clockOf others, tells, ?_⟩
  · rw [onward captures fun _ _ => rfl, clockOf_untimed untimed]
    cases front <;> rfl
  · rw [Rule.reading?, read, same, Option.map_some, onward others agree]

theorem dailyIdioms_sense {rule : Rule} (idiom : rule ∈ dailyIdioms) :
    rule.sense = always .everyDay := by
  simp only [dailyIdioms, idioms, List.drop_succ_cons, List.drop_zero, List.take_succ_cons,
    List.take_zero, List.mem_cons, List.not_mem_nil, or_false] at idiom
  rcases idiom with rfl | rfl <;> rfl

theorem meansAt_of_dailyIdiom {daily : Rule} (inDaily : daily ∈ dailyRules)
    (read : daily.pattern.whole? text = some captures) {time : Option Clock}
    (tells : Tells time (clockOf captures)) : MeansAt time (.ok .everyDay) text := by
  refine ⟨.ok .daily, fun phrase same => ?_, rfl, daily,
    earlierRules_subset (dailyRules_subset inDaily), clockOf captures, tells, ?_⟩
  · cases same
    exact ⟨_, _, _, fun _ => ⟨rfl, rfl, rfl⟩⟩
  · rw [Rule.reading?, read, dailyRules_sense inDaily]
    rfl

theorem meansAt_of_timeTaking {rule : Rule} (takes : rule ∈ timeTakingRules)
    (read : rule.pattern.whole? text = some captures) (untimed : Untimed captures)
    (proper : time.IsProper) :
    MeansAt time.clock? (rule.sense captures) (text ++ (" at ".toList ++ time.text)) := by
  have inRules := timeTakingRules_subset takes
  simp only [timeTakingRules, List.mem_append, List.mem_cons] at takes
  rcases takes with idiom | rfl | flexible
  · obtain ⟨daily, inDaily, later, readLater, tells⟩ := exists_later_of_dailyIdiom idiom read proper
    rw [dailyIdioms_sense idiom]
    exact meansAt_of_dailyIdiom inDaily readLater tells
  · obtain ⟨later, readLater, agree, tells⟩ := exists_later_of_countedDays read proper
    exact countedDays_readsTimeLast.meansAt untimed (earlierRules_subset countedDaysAtRule_mem) rfl
      readLater agree tells
  · obtain ⟨later, readLater, agree, tells⟩ :=
      exists_later_of_flexible flexible read untimed proper
    exact (flexibleRules_readTimeLast flexible).meansAt untimed inRules rfl readLater agree tells

variable {reading later : Reading}

theorem Reading.BecomesAt.of_plain {one other : Reading} (becomes : one.BecomesAt known other)
    (same : one.plain = reading.plain) (sameLater : other.plain = later.plain) :
    reading.BecomesAt known later := by
  obtain ⟨outcome, confidence, approximate, warning, _, _⟩ := one
  obtain ⟨laterOutcome, laterConfidence, laterApproximate, laterWarning, _, _⟩ := other
  cases reading
  cases later
  cases same
  cases sameLater
  exact ⟨becomes.refused, becomes.outOfRange, becomes.moved⟩

theorem becomesAt_failure (complaint : List Char) :
    (Reading.failure complaint).BecomesAt known (Reading.failure complaint) where
  refused _ failed := failed
  outOfRange _ := ⟨complaint, rfl⟩
  moved _ _ _ succeeded := by cases succeeded

theorem becomesAt_outOfRange (phrase : Phrase) (complaint : List Char) :
    phrase.reading.BecomesAt none (Reading.failure complaint) where
  refused _ failed := by
    rw [Phrase.outcome_reading] at failed
    cases failed
  outOfRange _ := ⟨complaint, rfl⟩
  moved _ told := by cases told

/-- The two answers: both stop at the same numeral, or one becomes the other. -/
theorem readingOf_at_time {front : Sense (Clock → Phrase)} {sense : Sense Clock}
    (steady : ∀ phrase, front = .ok phrase → Steady phrase) (tells : Tells known sense) :
    (∃ fault, readingOf (front.map (· .midnight)) = .error fault ∧
      readingOf (front >>= fun phrase => sense.map phrase) = .error fault) ∨
    ∃ reading later, readingOf (front.map (· .midnight)) = .ok reading ∧
      readingOf (front >>= fun phrase => sense.map phrase) = .ok later ∧
      reading.BecomesAt known later := by
  cases front with
  | error fault =>
      cases fault with
      | outOfRange fault => exact Or.inr ⟨_, _, rfl, rfl, becomesAt_failure fault.message⟩
      | numeralTooLong fault => exact Or.inl ⟨fault, rfl, rfl⟩
  | ok phrase =>
      cases known with
      | some clock =>
          cases tells
          exact Or.inr ⟨_, _, rfl, rfl, (steady phrase rfl).becomesAt clock⟩
      | none =>
          obtain ⟨fault, rfl⟩ := tells
          exact Or.inr ⟨_, _, rfl, rfl, becomesAt_outOfRange _ fault.message⟩

theorem recognize_of_plain_error {fault : Text.NumeralTooLong}
    (said : (recognize text).map (Option.map Reading.plain) = .error fault) :
    recognize text = .error fault := by
  cases answered : recognize text with
  | error _ =>
      rw [answered] at said
      cases said
      rfl
  | ok _ =>
      rw [answered] at said
      cases said

theorem exists_recognized_of_plain {told : Reading}
    (said : (recognize text).map (Option.map Reading.plain) = .ok (some told.plain)) :
    ∃ reading, recognize text = .ok (some reading) ∧ told.plain = reading.plain := by
  cases answered : recognize text with
  | error _ =>
      rw [answered] at said
      cases said
  | ok found =>
      rw [answered] at said
      obtain ⟨reading, rfl, same⟩ := Option.map_eq_some_iff.mp (Except.ok.inj said)
      exact ⟨reading, rfl, same.symm⟩

/-- A time behind a phrase only sets the clock. A phrase that is refused stays refused for the same
reason; otherwise the schedule gets another time, or the whole is refused if there is no such time. -/
theorem recognize_at_time {rule : Rule} (takes : rule ∈ timeTakingRules)
    (read : rule.pattern.whole? text = some captures) (untimed : Untimed captures)
    (proper : time.IsProper) :
    (∀ fault, recognize text = .error fault →
      recognize (text ++ (" at ".toList ++ time.text)) = .error fault) ∧
    ∀ reading, recognize text = .ok (some reading) →
      ∃ later, recognize (text ++ (" at ".toList ++ time.text)) = .ok (some later) ∧
        reading.BecomesAt time.clock? later := by
  obtain ⟨front, steady, samePlain, later, inRules, sense, tells, readLater⟩ :=
    meansAt_of_timeTaking takes read untimed proper
  have readRule : rule.reading? text = some (rule.sense captures) := by
    rw [Rule.reading?, read, Option.map_some]
  have said := recognize_plain_of_reading? (timeTakingRules_subset takes) readRule
  rw [samePlain] at said
  have saidLater := recognize_plain_of_reading? inRules readLater
  rcases readingOf_at_time steady tells with stopped | answered
  · obtain ⟨fault, first, second⟩ := stopped
    rw [first] at said
    rw [second] at saidLater
    have refused := recognize_of_plain_error said
    refine ⟨fun other answered => ?_, fun reading answered => ?_⟩
    · cases refused.symm.trans answered
      exact recognize_of_plain_error saidLater
    · cases refused.symm.trans answered
  · obtain ⟨told, toldLater, first, second, becomes⟩ := answered
    rw [first] at said
    rw [second] at saidLater
    obtain ⟨known, recognized, same⟩ := exists_recognized_of_plain said
    obtain ⟨later, recognizedLater, sameLater⟩ := exists_recognized_of_plain saidLater
    refine ⟨fun other answered => ?_, fun reading answered => ?_⟩
    · cases recognized.symm.trans answered
    · cases recognized.symm.trans answered
      exact ⟨later, recognizedLater, becomes.of_plain same sameLater⟩

theorem recognize_at_time_secondFriday :
    let text := "the 2nd friday".toList
    let time := WrittenTime.toTheMinute ['5'] "30".toList [' '] (some .pm)
    ∃ rule ∈ timeTakingRules, ∃ captures, rule.pattern.whole? text = some captures ∧
      Untimed captures ∧ time.IsProper ∧
      ∃ later, recognize "the 2nd friday at 5:30 pm".toList = .ok (some later) ∧
        (Phrase.nthWeekday 2 .friday .midnight).reading.BecomesAt (some ⟨17, 30⟩) later := by
  intro text time
  let rule : Rule := ⟨nthWeekdayPattern (.seq digits ordinalEnding), nthWeekdayOf⟩
  have takes : rule ∈ timeTakingRules :=
    List.mem_append_right _ (List.mem_cons_of_mem _ (List.mem_append_right _
      (List.mem_cons_of_mem _ List.mem_cons_self)))
  have reads : (rule.pattern.whole? text).any (fun captures => decide (Untimed captures)) := by
    decide +kernel
  obtain ⟨captures, read, isUntimed⟩ := (Option.any_eq_true ..).mp reads
  have untimed : Untimed captures := of_decide_eq_true isUntimed
  have proper : time.IsProper := by decide
  have recognized : recognize text =
      .ok (some (Phrase.nthWeekday 2 .friday .midnight).reading) := by decide +kernel
  exact ⟨rule, takes, captures, read, untimed, proper,
    (recognize_at_time takes read untimed proper).2 _ recognized⟩

end Recurrence
