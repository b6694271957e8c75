import Recurrence.Proofs.Phrase.WeekdayMentions
import Recurrence.Proofs.Phrase.WrittenTimes
import Recurrence.Proofs.Schedules
import Recurrence.Proofs.Unambiguity

namespace Recurrence

/-! Loose readings of phrases that a rule reads too. Of the rules that take a time of day and name no
weekday, the one for counted days finds its count again as the first interval of the phrase, and the
daily ones have no interval at all. So where both ways of reading answer, they answer alike. -/

open Crontab Phrase Pattern

variable {text : List Char}

/-! The characters of phrases -/

/-- All characters that a phrase may hold, whatever its rule. -/
def phraseChar : CharSet := .union .wordChar (.union .blank (.exactly ':'))

def CharSet.inPhrases : CharSet → Bool
  | .exactly c => phraseChar.contains c
  | .digit | .blank => true
  | _ => false

theorem CharSet.contains_phraseChar {set : CharSet} (inPhrases : set.inPhrases = true) {c : Char}
    (contained : set.contains c = true) : phraseChar.contains c = true := by
  cases set with
  | exactly d =>
      rw [eq_of_beq contained]
      exact inPhrases
  | digit =>
      have isDigit : Text.isDigit c = true := contained
      simp [phraseChar, contains, Text.isWordChar, Text.isDigitSign, isDigit]
  | blank => simp [phraseChar, contains, show Text.isBlank c = true from contained]
  | _ => cases inPhrases

/-- The characters of a phrase that belong to no word. -/
def mark : PhrasePattern := .either (.one .blank) (.one (.exactly ':'))

/-- Any part of a phrase. -/
def anyPart : PhrasePattern := .many (.one phraseChar)

theorem matches_anyPart (chars : ∀ c ∈ text, phraseChar.contains c = true) :
    anyPart.Matches text := by
  refine ⟨text.map ([·]), ?_, ?_⟩
  · simp [List.flatten_eq_flatMap, List.flatMap_map]
  · intro piece listed
    obtain ⟨c, member, rfl⟩ := List.mem_map.mp listed
    exact ⟨c, rfl, chars c member⟩

/-! What rules leave out -/

/-- A weekday that no word character stands in front of. -/
def weekdayBehindMark : PhrasePattern :=
  .either (.seq weekdayWord anyPart) (.seq anyPart (.seq mark (.seq weekdayWord anyPart)))

def intervalInside : PhrasePattern := .seq anyPart (.seq intervalMention anyPart)

variable {pattern : PhrasePattern} {visits : Nat}

theorem phraseChars_of_matches (inPhrases : ∀ set ∈ pattern.sets, set.inPhrases = true)
    (reads : pattern.Matches text) : ∀ c ∈ text, phraseChar.contains c = true := by
  intro c member
  obtain ⟨set, listed, contained⟩ := exists_set_of_matches reads c member
  exact CharSet.contains_phraseChar (inPhrases set listed) contained

theorem mark_matches {c : Char} (inPhrase : phraseChar.contains c = true)
    (noWordChar : Text.isWordChar c = false) : mark.Matches [c] := by
  simp only [phraseChar, CharSet.contains, noWordChar, Bool.false_or, Bool.or_eq_true] at inPhrase
  exact inPhrase.imp (fun blank => ⟨c, rfl, blank⟩) fun colon => ⟨c, rfl, colon⟩

theorem weekdayWord_matches {name : List Char} (weekday : (Weekday.ofWord? name).isSome) :
    weekdayWord.Matches name := by
  obtain ⟨known, listed, same⟩ := isSome_ofWord?_iff_mem_weekdayTexts.mp weekday
  exact (matches_anyOf_words weekdayTexts (by decide)).mpr (List.mem_map.mpr ⟨known, listed, same⟩)

theorem findWeekdays_eq_nil_of_apart (inPhrases : ∀ set ∈ pattern.sets, set.inPhrases = true)
    (apart : weekdayBehindMark.apart visits pattern = true) (reads : pattern.Matches text) :
    findWeekdays text = [] := by
  refine List.eq_nil_iff_forall_not_mem.mpr fun day found => ?_
  obtain ⟨run, ⟨_, _, before, behind, rfl, opens, _⟩, mentions⟩ := mem_findWeekdays_iff.mp found
  obtain ⟨name, ending, rfl, named, _⟩ := mentions.exists_ending
  have isName := weekdayWord_matches (Option.isSome_of_mem named)
  have chars := phraseChars_of_matches inPhrases reads
  have onward : anyPart.Matches (ending ++ behind) := by
    refine matches_anyPart fun c member => chars c ?_
    simp only [List.mem_append] at member ⊢
    tauto
  refine not_matches_of_apart apart reads ?_
  rcases List.eq_nil_or_concat before with rfl | ⟨front, c, rfl⟩
  · exact Or.inl ⟨name, ending ++ behind, List.append_assoc _ _ _, isName, onward⟩
  · have noWordChar : Text.isWordChar c = false := by simpa using opens
    have isFront : anyPart.Matches front :=
      matches_anyPart fun d member => chars d (by simp [member])
    exact Or.inr ⟨front, c :: (name ++ (ending ++ behind)), by simp, isFront, [c], _, rfl,
      mark_matches (chars c (by simp)) noWordChar, name, _, rfl, isName, onward⟩

theorem dayInterval?_eq_none_of_apart (inPhrases : ∀ set ∈ pattern.sets, set.inPhrases = true)
    (apart : intervalInside.apart visits pattern = true) (reads : pattern.Matches text) :
    dayInterval? text = none := by
  have chars := phraseChars_of_matches inPhrases reads
  have absent : intervalMention.occurrences text = [] := by
    refine not_ne_iff.mp fun occurs => ?_
    obtain ⟨front, rest, rfl, readable⟩ := occurrences_ne_nil_iff.mp occurs
    obtain ⟨way, member⟩ := List.exists_mem_of_ne_nil _ readable
    obtain ⟨read, cut, readsInterval⟩ := matches_of_mem_ways member
    have standing : rest = read ++ way.2.rest := cut
    subst standing
    exact not_matches_of_apart apart reads ⟨front, _, rfl,
      matches_anyPart fun c member => chars c (List.mem_append_left _ member), read, _, rfl,
      readsInterval, matches_anyPart fun c member => chars c (by simp [member])⟩
  rw [dayInterval?, absent]

/-! Counts -/

def openingParts : List PhrasePattern := ["every", blanks, capture .count digits, blanks]

def opening : PhrasePattern := inOrder openingParts

def unitMention : PhrasePattern :=
  .seq (capture .unit (anyOf ["minute", "hour", "day", "week", "month"])) (optional "s")

theorem ways_opening (behind : PhrasePattern) :
    (inOrder (openingParts ++ [behind])).ways = (seq opening behind).ways :=
  ways_inOrder_append (List.cons_ne_nil _ _) (List.cons_ne_nil _ _)

theorem intervalMention_ways : intervalMention.ways = (seq opening unitMention).ways := by
  have shape : intervalMention = inOrder (openingParts ++ [unitMention]) := rfl
  rw [shape, ways_opening]

theorem everyCount_ways (unit : String) :
    (everyCount unit).ways = (seq opening (plural unit)).ways := by
  have shape : everyCount unit = inOrder (openingParts ++ [plural unit]) := rfl
  rw [shape, ways_opening]

/-- A text that opens with "every" and a count, with something behind it. -/
structure OpensWith (count behind text : List Char) : Prop where
  isNumeral : IsNumeral count
  place : ∃ before after, text = "every".toList ++ (before ++ (count ++ (after ++ behind))) ∧
    (∀ c ∈ before, Text.isBlank c = true) ∧ ∀ c ∈ after, Text.isBlank c = true

/-- Neither digits nor blanks go on at the front of a text. -/
def IsSettled (text : List Char) : Prop :=
  text.head?.any Text.isDigit = false ∧ text.head?.any Text.isBlank = false

/-- There is only one way to read an opening that ends at the end of its digits and blanks. -/
theorem OpensWith.unique {first second behind rest : List Char}
    (opens : OpensWith first behind text) (alsoOpens : OpensWith second rest text)
    (settled : IsSettled behind) (alsoSettled : IsSettled rest) :
    first = second ∧ behind = rest := by
  obtain ⟨isNumeral, before, after, rfl, beforeBlank, afterBlank⟩ := opens
  obtain ⟨alsoNumeral, otherBefore, otherAfter, same, otherBeforeBlank, otherAfterBlank⟩ := alsoOpens
  have digitNotBlank {count rest : List Char} (isNumeral : IsNumeral count) :
      (count ++ rest).head?.any Text.isBlank = false :=
    head?_any_append (fun c member => Text.isBlank_of_isDigit (isNumeral.2 c member))
      fun empty => absurd empty isNumeral.1
  have blankNotDigit {after rest : List Char} (blank : ∀ c ∈ after, Text.isBlank c = true)
      (settled : IsSettled rest) : (after ++ rest).head?.any Text.isDigit = false := by
    refine head?_any_append (fun c member => Bool.eq_false_iff.mpr fun digit => ?_)
      fun _ => settled.1
    exact absurd (blank c member) (by simp [Text.isBlank_of_isDigit digit])
  have behindEvery := List.append_cancel_left same
  obtain rfl := eq_of_runs behindEvery beforeBlank otherBeforeBlank (digitNotBlank isNumeral)
    (digitNotBlank alsoNumeral)
  have behindBefore := List.append_cancel_left behindEvery
  obtain rfl := eq_of_runs behindBefore isNumeral.2 alsoNumeral.2 (blankNotDigit afterBlank settled)
    (blankNotDigit otherAfterBlank alsoSettled)
  have behindCount := List.append_cancel_left behindBefore
  obtain rfl := eq_of_runs behindCount afterBlank otherAfterBlank settled.2 alsoSettled.2
  exact ⟨rfl, List.append_cancel_left behindCount⟩

theorem opening_way {place : Cursor} {way : Way Slot} (member : way ∈ opening.ways place) :
    ∃ count, OpensWith count way.2.rest place.rest ∧
      ∀ further : Captures Slot, (way.1 ++ further).text .count = count := by
  simp only [opening, openingParts, inOrder, mem_ways_seq] at member
  obtain ⟨every, inEvery, _, ⟨before, inBefore, _, ⟨count, inCount, after, inAfter, rfl⟩, rfl⟩,
    rfl⟩ := member
  obtain ⟨number, inDigits, rfl⟩ := List.mem_map.mp inCount
  have nothing : every.1 = [] ∧ before.1 = [] :=
    ⟨captures_eq_nil rfl inEvery, captures_eq_nil rfl inBefore⟩
  obtain ⟨everyText, everyCut, readsEvery⟩ := matches_of_mem_ways inEvery
  obtain ⟨beforeText, beforeCut, readsBefore⟩ := matches_of_mem_ways inBefore
  obtain ⟨countText, countCut, readsCount⟩ := matches_of_mem_ways inDigits
  obtain ⟨afterText, afterCut, readsAfter⟩ := matches_of_mem_ways inAfter
  refine ⟨countText, ⟨isNumeral_of_digits readsCount, beforeText, afterText, ?_,
    isBlank_of_blanks readsBefore, isBlank_of_blanks readsAfter⟩, fun further => ?_⟩
  · rw [everyCut, beforeCut, countCut]
    dsimp only at afterCut ⊢
    rw [afterCut, matches_literal.mp readsEvery]
  · rw [nothing.1, nothing.2]
    exact upTo_of_rest_eq countCut

theorem occurrences_of_readAt? {found : Occurrence Slot}
    (read : pattern.readAt? (.start text) = some found) :
    ∃ others, pattern.occurrences text = found :: others := by
  cases text with
  | nil => exact ⟨[], congrArg Option.toList read⟩
  | cons c rest => exact ⟨_, by rw [occurrences, occurrencesFrom, ← Cursor.start, read]⟩

def unitTexts : List (List Char) :=
  ["minute".toList, "hour".toList, "day".toList, "week".toList, "month".toList]

theorem isSettled_of_unit {unit rest : List Char} (listed : unit ∈ unitTexts) :
    IsSettled (unit ++ rest) := by
  have letters : ∀ unit ∈ unitTexts, unit ≠ [] ∧
      unit.any Text.isDigit = false ∧ unit.any Text.isBlank = false := by decide
  obtain ⟨nonempty, noDigit, noBlank⟩ := letters unit listed
  have fronted {inside : Char → Bool} (outside : unit.any inside = false) :
      (unit ++ rest).head?.any inside = false :=
    head?_any_append (fun c member => Bool.eq_false_iff.mpr (List.any_eq_false.mp outside c member))
      fun empty => absurd empty nonempty
  exact ⟨fronted noDigit, fronted noBlank⟩

theorem unit_unique {unit other behind rest : List Char} (listed : unit ∈ unitTexts)
    (alsoListed : other ∈ unitTexts) (same : unit ++ behind = other ++ rest) : unit = other := by
  have apart : ∀ unit ∈ unitTexts, ∀ other ∈ unitTexts, unit <+: other → unit = other := by decide
  rcases List.prefix_or_prefix_of_prefix (same ▸ List.prefix_append unit behind)
    (List.prefix_append other rest) with shorter | longer
  · exact apart unit listed other alsoListed shorter
  · exact (apart other alsoListed unit listed longer).symm

theorem unitMention_way {place : Cursor} {way : Way Slot} (member : way ∈ unitMention.ways place) :
    ∃ unit ∈ unitTexts, (∃ rest, place.rest = unit ++ rest) ∧
      ∀ front : Captures Slot, front.text? .unit = none → (front ++ way.1).text .unit = unit := by
  obtain ⟨_, inUnit, ending, inEnding, rfl⟩ := mem_ways_seq.mp member
  obtain ⟨inner, inAny, rfl⟩ := List.mem_map.mp inUnit
  obtain ⟨read, cut, reads⟩ := matches_of_mem_ways inAny
  refine ⟨read, (matches_anyOf_words ["minute", "hour", "day", "week", "month"] (by decide)).mp reads,
    ⟨_, cut⟩, fun front absent => ?_⟩
  rw [Captures.text, Captures.text?_append, absent, Option.none_or]
  exact upTo_of_rest_eq cut

/-- The count of "every so many days" is the count of the first interval in the text. -/
theorem dayInterval?_of_everyCount {way : Way Slot} (further : Captures Slot)
    (member : way ∈ (everyCount "day").ways (.start text)) :
    dayInterval? text = some ((way.1 ++ further).text .count) := by
  rw [everyCount_ways] at member
  obtain ⟨front, inOpening, back, inPlural, rfl⟩ := mem_ways_seq.mp member
  obtain ⟨day, inDay, ending, inEnding, rfl⟩ := mem_ways_seq.mp inPlural
  obtain ⟨count, opens, captured⟩ := opening_way inOpening
  obtain ⟨dayCut, _⟩ := mem_ways_literal.mp inDay
  have dayUnit : "day".toList ∈ unitTexts := by decide
  have inUnit : day ∈ (anyOf ["minute", "hour", "day", "week", "month"] : PhrasePattern).ways
      front.2 := (mem_ways_anyOf (List.cons_ne_nil _ _)).mpr ⟨word "day", by simp, inDay⟩
  have readable : intervalMention.ways (.start text) ≠ [] := by
    rw [intervalMention_ways]
    exact List.ne_nil_of_mem (mem_ways_seq.mpr ⟨front, inOpening, _, mem_ways_seq.mpr
      ⟨_, List.mem_map_of_mem inUnit, ending, inEnding, rfl⟩, rfl⟩)
  obtain ⟨found, read⟩ := Option.ne_none_iff_exists'.mp (readAt?_eq_none_iff.not.mpr readable)
  obtain ⟨others, occurrences⟩ := occurrences_of_readAt? read
  have inWays := (readAt?_eq_some read).2
  rw [intervalMention_ways] at inWays
  obtain ⟨otherFront, inOther, otherBack, inMention, same⟩ := mem_ways_seq.mp inWays
  obtain ⟨otherCount, otherOpens, otherCaptured⟩ := opening_way inOther
  obtain ⟨unit, listed, ⟨rest, unitCut⟩, unitCaptured⟩ := unitMention_way inMention
  obtain ⟨rfl, sameBehind⟩ := otherOpens.unique opens (unitCut ▸ isSettled_of_unit listed)
    (dayCut ▸ isSettled_of_unit dayUnit)
  rw [unitCut, dayCut] at sameBehind
  obtain rfl := unit_unique listed dayUnit sameBehind
  have noUnit : otherFront.1.text? .unit = none :=
    text?_eq_none_of_not_mem_slots (by decide) inOther
  have foundParts : found.captures = otherFront.1 ++ otherBack.1 := congrArg Prod.fst same
  rw [dayInterval?, occurrences]
  dsimp only
  rw [foundParts, unitCaptured _ noUnit, if_pos rfl, otherCaptured, List.append_assoc, captured]

/-! Both ways of reading -/

variable {rule : Rule} {captures : Captures Slot} {clock : Clock} {teller : TimeTeller}

theorem findSome?_of_apart {table : List Rule} {sense : Sense Phrase}
    (apart : table.Pairwise fun first second => first.pattern.apart visits second.pattern = true)
    (member : rule ∈ table) (read : rule.reading? text = some sense) :
    table.findSome? (·.reading? text) = some sense := by
  induction table with
  | nil => cases member
  | cons first others ih =>
      obtain ⟨fromFirst, apartOthers⟩ := List.pairwise_cons.mp apart
      rcases List.mem_cons.mp member with rfl | further
      · rw [List.findSome?_cons, read]
      · obtain ⟨captures, readText, _⟩ := Option.map_eq_some_iff.mp read
        have unread := whole?_eq_none_of_apart (fromFirst rule further) readText
        rw [List.findSome?_cons, Rule.reading?, unread, Option.map_none]
        exact ih apartOthers further

/-- Rules that come before the lists of weekdays decide on all that they read. -/
theorem recognize_of_earlierRules (inEarlier : rule ∈ earlierRules)
    (read : rule.pattern.whole? text = some captures) :
    recognize text = (readingOf (rule.sense captures)).map some := by
  have readRule : rule.reading? text = some (rule.sense captures) := by
    rw [Rule.reading?, read, Option.map_some]
  have apart := (List.pairwise_append.mp otherRules_apart).1
  rw [recognize, rules_eq, List.findSome?_append, findSome?_of_apart apart inEarlier readRule,
    Option.some_or]

theorem answer_looseInquiry (told : teller text = .ok (some clock)) :
    (looseInquiry text text).answer teller =
      (readLoosely text clock).mapError .numeralTooLong := by
  simp only [looseInquiry, Inquiry.answer, told]
  rfl

/-- Every so many days at some time. -/
def countedDaysAtRule : Rule := ⟨.seq (everyCount "day") atTime, countedDays⟩

/-- Every day at some time. -/
def dailyRules : List Rule := timesOfDay.take 2

theorem countedDaysAtRule_mem : countedDaysAtRule ∈ earlierRules := by
  have inIntervals : countedDaysAtRule ∈ intervals :=
    List.mem_cons_of_mem _ (List.mem_cons_of_mem _ List.mem_cons_self)
  exact List.mem_append_left _ (List.mem_append_right _ inIntervals)

theorem dailyRules_subset : dailyRules ⊆ earlierRules := by
  intro rule member
  have inTimes : rule ∈ timesOfDay.take 5 := List.take_subset_take_left timesOfDay (by decide) member
  exact List.mem_append_right _ inTimes

theorem dailyRules_sense (member : rule ∈ dailyRules) : rule.sense = timed .daily := by
  simp only [dailyRules, timesOfDay, List.take_succ_cons, List.take_zero, List.mem_cons,
    List.not_mem_nil, or_false] at member
  rcases member with rfl | rfl <;> rfl

theorem countedDaysAtRule_inPhrases :
    ∀ set ∈ countedDaysAtRule.pattern.sets, set.inPhrases = true := by
  decide

theorem dailyRules_inPhrases :
    ∀ rule ∈ dailyRules, ∀ set ∈ rule.pattern.sets, set.inPhrases = true := by
  decide

theorem weekdays_apart_countedDaysAtRule :
    weekdayBehindMark.apart 2000 countedDaysAtRule.pattern = true := by
  decide +kernel

theorem weekdays_apart_dailyRules :
    ∀ rule ∈ dailyRules, weekdayBehindMark.apart 2000 rule.pattern = true := by
  decide +kernel

theorem interval_apart_dailyRules :
    ∀ rule ∈ dailyRules, intervalInside.apart 2000 rule.pattern = true := by
  decide +kernel

theorem dayIntervalReading_eq (ofText : clockOf captures = .ok clock) :
    dayIntervalReading (captures.text .count) clock = readingOf (countedDays captures) := by
  simp only [dayIntervalReading, countedDays, boundedNumber, number, ofText]
  cases Text.readDigits (captures.text .count) with
  | error tooLong => rfl
  | ok n =>
      simp only [Except.map, bind, Except.bind, within]
      split <;> rfl

theorem readLoosely_countedDaysAt (ofText : clockOf captures = .ok clock)
    (read : countedDaysAtRule.pattern.whole? text = some captures) :
    readLoosely text clock = recognize text := by
  obtain ⟨way, ended, rfl⟩ := Option.map_eq_some_iff.mp read
  obtain ⟨front, inCount, back, _, rfl⟩ := toEnd?_seq ended
  have noWeekday : findWeekdays text = [] :=
    findWeekdays_eq_nil_of_apart countedDaysAtRule_inPhrases weekdays_apart_countedDaysAtRule
      (matches_of_whole? read)
  rw [readLoosely, if_neg (not_not_intro noWeekday), dayInterval?_of_everyCount back.1 inCount,
    recognize_of_earlierRules countedDaysAtRule_mem read]
  exact congrArg (Except.map some) (dayIntervalReading_eq ofText)

theorem readLoosely_daily (daily : rule ∈ dailyRules)
    (read : rule.pattern.whole? text = some captures) :
    readLoosely text clock =
      .ok (if dailyCue.occurs text then some (dailyReading clock) else none) := by
  have noWeekday : findWeekdays text = [] :=
    findWeekdays_eq_nil_of_apart (dailyRules_inPhrases rule daily)
      (weekdays_apart_dailyRules rule daily) (matches_of_whole? read)
  have noInterval : dayInterval? text = none :=
    dayInterval?_eq_none_of_apart (dailyRules_inPhrases rule daily)
      (interval_apart_dailyRules rule daily) (matches_of_whole? read)
  rw [readLoosely, if_neg (not_not_intro noWeekday), noInterval]

/-! Times that are told as they are written -/

theorem takesTime_countedDaysAtRule :
    TakesTime countedDaysAtRule.pattern (.seq (everyCount "day") blanks) where
  shape := (ways_seq_congr atTime_ways).trans (ways_seq_assoc _ _ _).symm
  silent := by decide

theorem takesTime_dailyRules (daily : rule ∈ dailyRules) : ∃ front, TakesTime rule.pattern front := by
  simp only [dailyRules, timesOfDay, List.take_succ_cons, List.take_zero, List.mem_cons,
    List.not_mem_nil, or_false] at daily
  rcases daily with rfl | rfl
  · refine ⟨optional (inOrder ["every", blanks, "day", blanks]), ?_, by decide⟩
    exact ways_inOrder_append (List.cons_ne_nil _ []) (List.cons_ne_nil _ _)
  · refine ⟨.seq "daily" blanks, ?_, by decide⟩
    exact (ways_seq_congr atTime_ways).trans (ways_seq_assoc _ _ _).symm

theorem takesTime_of_overlap (overlaps : rule ∈ countedDaysAtRule :: dailyRules) :
    ∃ front, TakesTime rule.pattern front := by
  rcases List.mem_cons.mp overlaps with rfl | daily
  · exact ⟨_, takesTime_countedDaysAtRule⟩
  · exact takesTime_dailyRules daily

/-- Each text that these rules read ends in one time only. -/
theorem existsUnique_endsIn (overlaps : rule ∈ countedDaysAtRule :: dailyRules)
    (read : rule.pattern.whole? text = some captures) : ∃! time, EndsIn time text := by
  obtain ⟨front, takes⟩ := takesTime_of_overlap overlaps
  obtain ⟨time, ends, _⟩ := takes.exists_time read
  exact ⟨time, ends, fun other alsoEnds => ends.unique alsoEnds⟩

theorem readingOf_countedDays (ofText : clockOf captures = .ok clock) :
    (∃ reading, readingOf (countedDays captures) = .ok reading) ↔
      (captures.text .count).length ≤ Text.maxDigits := by
  rw [← dayIntervalReading_eq ofText, dayIntervalReading, Text.readDigits]
  by_cases short : (captures.text .count).length ≤ Text.maxDigits
  · rw [if_pos short]
    exact iff_of_true ⟨_, rfl⟩ short
  · rw [if_neg short]
    refine iff_of_false (not_exists.mpr fun _ read => ?_) short
    cases read

variable {time : WrittenTime}

theorem answer_countedDaysAt (ends : EndsIn time text) (known : time.clock? = some clock)
    (told : teller text = .ok (some clock))
    (read : countedDaysAtRule.pattern.whole? text = some captures) :
    (looseInquiry text text).answer teller = (recognize text).mapError .numeralTooLong ∧
      ((∃ reading, recognize text = .ok (some reading)) ↔
        (captures.text .count).length ≤ Text.maxDigits) := by
  have ofText : clockOf captures = .ok clock := by
    simpa [known, Tells] using takesTime_countedDaysAtRule.tells read ends
  constructor
  · rw [answer_looseInquiry told, readLoosely_countedDaysAt ofText read]
  · rw [recognize_of_earlierRules countedDaysAtRule_mem read, ← readingOf_countedDays ofText]
    change (∃ reading, (readingOf (countedDays captures)).map some = _) ↔ _
    cases readingOf (countedDays captures) <;> simp [Except.map]

theorem answer_daily (ends : EndsIn time text) (known : time.clock? = some clock)
    (told : teller text = .ok (some clock)) (daily : rule ∈ dailyRules)
    (read : rule.pattern.whole? text = some captures) :
    ∃ reading schedule, recognize text = .ok (some reading) ∧ reading.schedule? = some schedule ∧
      ((looseInquiry text text).answer teller = .ok none ∨
        ∃ loose, (looseInquiry text text).answer teller = .ok (some loose) ∧
          loose.schedule? = some schedule) := by
  obtain ⟨front, takes⟩ := takesTime_dailyRules daily
  have ofText : clockOf captures = .ok clock := by simpa [known, Tells] using takes.tells read ends
  refine ⟨(Phrase.daily clock).reading, (Phrase.daily clock).line.text, ?_, rfl, ?_⟩
  · rw [recognize_of_earlierRules (dailyRules_subset daily) read, dailyRules_sense daily, timed,
      ofText]
    rfl
  · rw [answer_looseInquiry told, readLoosely_daily daily read]
    by_cases cued : dailyCue.occurs text
    · exact Or.inr ⟨dailyReading clock, by rw [if_pos cued]; rfl, rfl⟩
    · exact Or.inl (by rw [if_neg cued]; rfl)

/-- Where the teller knows the time at the end of a text, the loose reading of counted days is the
one by their rule, and the loose reading of a daily text has the schedule of its rule if it has any. -/
theorem answer_agrees_with_recognize (ends : EndsIn time text) (known : time.clock? = some clock)
    (told : teller text = .ok (some clock)) :
    (∀ captures, countedDaysAtRule.pattern.whole? text = some captures →
      (looseInquiry text text).answer teller = (recognize text).mapError .numeralTooLong ∧
        ((∃ reading, recognize text = .ok (some reading)) ↔
          (captures.text .count).length ≤ Text.maxDigits)) ∧
    (∀ rule ∈ dailyRules, ∀ captures, rule.pattern.whole? text = some captures →
      ∃ reading schedule, recognize text = .ok (some reading) ∧ reading.schedule? = some schedule ∧
        ((looseInquiry text text).answer teller = .ok none ∨
          ∃ loose, (looseInquiry text text).answer teller = .ok (some loose) ∧
            loose.schedule? = some schedule)) :=
  ⟨fun _ read => answer_countedDaysAt ends known told read,
    fun _ daily _ read => answer_daily ends known told daily read⟩

theorem answer_agrees_with_recognize_evening :
    (let time := WrittenTime.toTheMinute ['9'] "30".toList [' '] (some .pm)
     let text := "every 5 days at 9:30 pm".toList
     EndsIn time text ∧ time.clock? = some ⟨21, 30⟩ ∧
      (countedDaysAtRule.pattern.whole? text).isSome ∧
      (looseInquiry text text).answer (fun _ => .ok (some ⟨21, 30⟩)) =
        (recognize text).mapError .numeralTooLong) ∧
    (let text := "every day at noon".toList
     EndsIn .noon text ∧ WrittenTime.noon.clock? = some .noon ∧
      (∃ rule ∈ dailyRules, (rule.pattern.whole? text).isSome) ∧
      ∃ reading schedule, recognize text = .ok (some reading) ∧
        reading.schedule? = some schedule ∧
        ((looseInquiry text text).answer (fun _ => .ok (some .noon)) = .ok none ∨
          ∃ loose, (looseInquiry text text).answer (fun _ => .ok (some .noon)) = .ok (some loose) ∧
            loose.schedule? = some schedule)) := by
  constructor
  · intro time text
    have ends : EndsIn time text := ⟨by decide, "every 5 days ".toList, [' '], rfl, by decide⟩
    have known : time.clock? = some ⟨21, 30⟩ := by decide
    have reads : (countedDaysAtRule.pattern.whole? text).isSome := by decide +kernel
    obtain ⟨captures, read⟩ := Option.isSome_iff_exists.mp reads
    let teller : TimeTeller := fun _ => .ok (some ⟨21, 30⟩)
    have told : teller text = .ok (some ⟨21, 30⟩) := rfl
    exact ⟨ends, known, reads,
      ((answer_agrees_with_recognize ends known told).1 captures read).1⟩
  · intro text
    have ends : EndsIn .noon text := ⟨trivial, "every day ".toList, [' '], rfl, by decide⟩
    have reads : ∃ rule ∈ dailyRules, (rule.pattern.whole? text).isSome := by decide +kernel
    let teller : TimeTeller := fun _ => .ok (some .noon)
    have told : teller text = .ok (some .noon) := rfl
    have agrees := answer_agrees_with_recognize ends rfl told
    obtain ⟨rule, daily, some⟩ := reads
    obtain ⟨captures, read⟩ := Option.isSome_iff_exists.mp some
    exact ⟨ends, rfl, ⟨rule, daily, some⟩, agrees.2 rule daily captures read⟩

end Recurrence
