import Recurrence.Proofs.Pattern.Captured
import Recurrence.Proofs.Pattern.Preferred
import Recurrence.Proofs.Pattern.Search
import Recurrence.Proofs.Phrase.Rules

namespace Recurrence

/-! Texts that several rules read. The only two rules with such texts are those for the first of
the month and for a numbered day of the month, and they answer alike but for the wording. So
the order of the rules does not matter. -/

/-- What a reading says apart from the wording of its confirmation. -/
def Reading.plain (reading : Reading) : Reading :=
  { reading with interpretation := none }

namespace Phrase

open Pattern

/-! The rules but for the first of the month -/

def firstOfMonthRule : Rule := ⟨onMonthDay "1st", timed .firstOfMonth⟩

/-- All rules but the one for the first of the month. No text is read by two of them. -/
def otherRules : List Rule :=
  earlierRules ++ weekdaysRule :: laterRules.tail

theorem rules_perm : rules.Perm (firstOfMonthRule :: otherRules) := by
  change ((earlierRules ++ [weekdaysRule]) ++ firstOfMonthRule :: laterRules.tail).Perm
    (firstOfMonthRule :: ((earlierRules ++ [weekdaysRule]) ++ laterRules.tail))
  exact List.perm_middle

theorem otherRules_apart :
    otherRules.Pairwise fun first second => first.pattern.apart 200 second.pattern = true := by
  have earlier : earlierRules.Pairwise fun first second =>
      first.pattern.apart 200 second.pattern = true := by decide +kernel
  have later : (weekdaysRule :: laterRules.tail).Pairwise fun first second =>
      first.pattern.apart 200 second.pattern = true := by decide +kernel
  have across : ∀ first ∈ earlierRules, ∀ second ∈ laterRules.tail,
      first.pattern.apart 200 second.pattern = true := by decide +kernel
  exact List.pairwise_append.mpr ⟨earlier, later, fun first inEarlier =>
    List.forall_mem_cons.mpr ⟨earlierRules_apart first inEarlier, across first inEarlier⟩⟩

/-! Days of the month -/

/-- What follows the day in a phrase about a day of the month. -/
def behindMonthDay : PhrasePattern :=
  inOrder [blanks, optional (.seq "day" blanks), optional (.seq "of" blanks), optional everyOrEach,
    blanks, "month", maybeAtTime]

def dayNumber : PhrasePattern :=
  .seq (capture .dayOfMonth shortNumber) (optional ordinalEnding)

def dayOfMonthRule : Rule := ⟨onMonthDay dayNumber, onDayOfMonth⟩

theorem not_isDigit_of_apart {pattern : PhrasePattern}
    (apart : ∀ set ∈ pattern.sets, set.apart .digit = true) {text : List Char}
    (reads : pattern.Matches text) : ∀ c ∈ text, Text.isDigit c = false := by
  intro c member
  obtain ⟨set, listed, contained⟩ := exists_set_of_matches reads c member
  exact CharSet.not_contains_of_apart (apart set listed) contained

/-- The words in front of the day hold no digit and capture nothing, so all that is captured is
the day and what follows it. -/
theorem exists_day_of_onMonthDay {day : PhrasePattern} {text : List Char}
    {captures : Captures Slot} (read : (onMonthDay day).whole? text = some captures) :
    ∃ lead place, text = lead ++ place.rest ∧ (∀ c ∈ lead, Text.isDigit c = false) ∧
      ∃ way ∈ day.ways place, ∃ behind, behindMonthDay.toEnd? way.2 = some behind ∧
        captures = way.1 ++ behind.1 := by
  obtain ⟨whole, wholeEnded, rfl⟩ := Option.map_eq_some_iff.mp read
  obtain ⟨on, inOn, afterOn, onEnded, rfl⟩ := toEnd?_seq wholeEnded
  obtain ⟨the, inThe, afterThe, theEnded, rfl⟩ := toEnd?_seq onEnded
  obtain ⟨way, inDay, behind, ended, rfl⟩ := toEnd?_seq theEnded
  have onSilent : on.1 = [] := captures_eq_nil rfl inOn
  have theSilent : the.1 = [] := captures_eq_nil rfl inThe
  obtain ⟨onText, onCut, readsOn⟩ := matches_of_mem_ways inOn
  obtain ⟨theText, theCut, readsThe⟩ := matches_of_mem_ways inThe
  refine ⟨onText ++ theText, the.2, ?_, ?_, way, inDay, behind, ended, ?_⟩
  · rw [List.append_assoc, ← theCut]
    exact onCut
  · exact List.forall_mem_append.mpr ⟨not_isDigit_of_apart (by decide) readsOn,
      not_isDigit_of_apart (by decide) readsThe⟩
  · simp only [onSilent, theSilent, List.nil_append]

theorem firstDay_way {place : Cursor} {way : Way Slot}
    (member : way ∈ (word "1st" : PhrasePattern).ways place) :
    place.rest = '1' :: 's' :: 't' :: way.2.rest ∧ way = ([], ⟨some 't', way.2.rest⟩) :=
  mem_ways_literal.mp member

theorem ordinalEnding_way {place : Cursor} {way : Way Slot} {rest : List Char}
    (standing : place.rest = 's' :: 't' :: rest) (member : way ∈ ordinalEnding.ways place) :
    way = ([], ⟨some 't', rest⟩) := by
  obtain ⟨ending, listed, inEnding⟩ := (mem_ways_anyOf (by simp)).mp member
  simp only [List.mem_cons, List.not_mem_nil, or_false] at listed
  rcases listed with rfl | rfl | rfl | rfl
  all_goals
    obtain ⟨cut, same⟩ := mem_ways_literal.mp inEnding
    rw [standing] at cut
  · have reached : 's' :: 't' :: rest = 's' :: 't' :: way.2.rest := cut
    cases reached
    exact same
  · cases (List.cons.inj (show 's' :: _ = 'n' :: _ from cut)).1
  · cases (List.cons.inj (show 's' :: _ = 'r' :: _ from cut)).1
  · cases (List.cons.inj (show 's' :: _ = 't' :: _ from cut)).1

theorem exists_digit_of_dayNumber {place : Cursor} {way : Way Slot}
    (member : way ∈ dayNumber.ways place) :
    ∃ c rest, place.rest = c :: rest ∧ Text.isDigit c = true := by
  obtain ⟨front, inNumber, _⟩ := mem_ways_seq.mp member
  obtain ⟨number, inDigits, _⟩ := List.mem_map.mp inNumber
  obtain ⟨first, inFirst, _⟩ := mem_ways_seq.mp inDigits
  obtain ⟨c, rest, standing, isDigit, _⟩ := mem_ways_one.mp inFirst
  exact ⟨c, rest, standing, isDigit⟩

/-- Where `1st` stands, a day number is the one, with its ending or in front of it. -/
theorem dayNumber_way {place : Cursor} {way : Way Slot} {rest : List Char}
    (standing : place.rest = '1' :: 's' :: 't' :: rest) (member : way ∈ dayNumber.ways place) :
    way.1 = [(.dayOfMonth, place, ⟨some '1', 's' :: 't' :: rest⟩)] ∧
      (way.2 = ⟨some 't', rest⟩ ∨ way.2.rest = 's' :: 't' :: rest) := by
  obtain ⟨front, inNumber, back, inEnding, rfl⟩ := mem_ways_seq.mp member
  obtain ⟨number, inDigits, rfl⟩ := List.mem_map.mp inNumber
  obtain ⟨first, inFirst, second, inSecond, rfl⟩ := mem_ways_seq.mp inDigits
  obtain ⟨c, others, firstStanding, _, rfl⟩ := mem_ways_one.mp inFirst
  rw [standing] at firstStanding
  cases firstStanding
  rcases mem_ways_optional.mp inSecond with more | rfl
  · -- There is no second digit, since a letter follows the first.
    obtain ⟨d, further, secondStanding, isDigit, _⟩ := mem_ways_one.mp more
    cases secondStanding
    exact absurd isDigit (by decide)
  · rcases mem_ways_optional.mp inEnding with ending | rfl
    · rw [ordinalEnding_way rfl ending]
      exact ⟨rfl, Or.inl rfl⟩
    · exact ⟨rfl, Or.inr rfl⟩

theorem not_toEnd?_behindMonthDay {place : Cursor} {rest : List Char}
    (standing : place.rest = 's' :: rest) : behindMonthDay.toEnd? place = none := by
  have noStep : ∀ step ∈ behindMonthDay.steps, step.1.contains 's' = false := by decide
  refine Option.eq_none_iff_forall_ne_some.mpr fun way ended => ?_
  have reads := matches_of_toEnd? ended
  rw [standing] at reads
  obtain ⟨step, listed, contained, _⟩ := exists_step_of_matches_cons reads
  rw [noStep step listed] at contained
  cases contained

/-- Where both rules read a text, the day is the first, and all else is captured alike. -/
theorem captures_of_firstOfMonth {text : List Char} {first second : Captures Slot}
    (readFirst : firstOfMonthRule.pattern.whole? text = some first)
    (readSecond : dayOfMonthRule.pattern.whole? text = some second) :
    second.text .dayOfMonth = ['1'] ∧
      ∀ slot, slot ≠ .dayOfMonth → second.text? slot = first.text? slot := by
  obtain ⟨lead, place, rfl, noDigit, way, inDay, behind, ended, rfl⟩ :=
    exists_day_of_onMonthDay readFirst
  obtain ⟨otherLead, otherPlace, same, noOtherDigit, otherWay, inNumber, otherBehind, otherEnded,
    rfl⟩ := exists_day_of_onMonthDay readSecond
  obtain ⟨standing, stop⟩ := firstDay_way inDay
  obtain ⟨c, rest, otherStanding, isDigit⟩ := exists_digit_of_dayNumber inNumber
  -- What stands in front of the day ends at the first digit, so both days stand at one place.
  have shared := congrArg (List.dropWhile (!Text.isDigit ·)) same
  rw [standing, otherStanding, List.dropWhile_append_of_pos (by simpa using noDigit),
    List.dropWhile_append_of_pos (by simpa using noOtherDigit),
    List.dropWhile_cons_of_neg (by decide), List.dropWhile_cons_of_neg (by simp [isDigit])] at shared
  rw [← shared] at otherStanding
  obtain ⟨captured, reached | left⟩ := dayNumber_way otherStanding inNumber
  · rw [reached] at otherEnded
    rw [stop] at ended ⊢
    rw [Option.some.inj (otherEnded.symm.trans ended), captured]
    refine ⟨?_, fun slot different => ?_⟩
    · simp [Captures.text, Captures.text?, Cursor.upTo, otherStanding]
    · rw [Captures.text?_append, Captures.text?_eq_none, Option.none_or]
      · rfl
      · exact List.forall_mem_singleton.mpr different.symm
  · rw [not_toEnd?_behindMonthDay left] at otherEnded
    cases otherEnded

/-! Answers -/

/-- Rules answer alike if they say the same, but for the wording, of every text they both read. -/
def Rule.AnswersLike (first second : Rule) : Prop :=
  ∀ text firstSense secondSense, first.reading? text = some firstSense →
    second.reading? text = some secondSense →
    (readingOf firstSense).map Reading.plain = (readingOf secondSense).map Reading.plain

theorem Rule.AnswersLike.symm {first second : Rule} (alike : first.AnswersLike second) :
    second.AnswersLike first :=
  fun text secondSense firstSense readSecond readFirst =>
    (alike text firstSense secondSense readFirst readSecond).symm

theorem Rule.answersLike_self (rule : Rule) : rule.AnswersLike rule := by
  intro text first second readFirst readSecond
  rw [readFirst] at readSecond
  rw [Option.some.inj readSecond]

theorem Rule.answersLike_of_apart {first second : Rule} {visits : Nat}
    (apart : first.pattern.apart visits second.pattern = true) : first.AnswersLike second := by
  intro text firstSense secondSense readFirst readSecond
  obtain ⟨captures, read, _⟩ := Option.map_eq_some_iff.mp readSecond
  rw [Rule.reading?, whole?_eq_none_of_apart apart read] at readFirst
  cases readFirst

theorem firstOfMonth_answersLike_dayOfMonth : firstOfMonthRule.AnswersLike dayOfMonthRule := by
  intro text firstSense secondSense readFirst readSecond
  obtain ⟨first, firstRead, rfl⟩ := Option.map_eq_some_iff.mp readFirst
  obtain ⟨second, secondRead, rfl⟩ := Option.map_eq_some_iff.mp readSecond
  obtain ⟨day, same⟩ := captures_of_firstOfMonth firstRead secondRead
  have one : boundedNumber ['1'] 1 31 .dayOfMonth = .ok 1 := by decide
  have noDay : ∀ slot ∈ clockSlots, slot ≠ .dayOfMonth := by decide
  have clock : clockOf second = clockOf first :=
    clockOf_congr fun slot listed => same slot (noDay slot listed)
  have secondSense : dayOfMonthRule.sense second = (clockOf first).map (.dayOfMonth 1) := by
    simp only [dayOfMonthRule, onDayOfMonth, day, one, clock]
    cases clockOf first <;> rfl
  rw [secondSense]
  simp only [firstOfMonthRule, timed]
  cases clockOf first with
  | error fault => rfl
  | ok clock => rfl

instance : Std.Symm Rule.AnswersLike := ⟨fun _ _ alike => alike.symm⟩

theorem firstOfMonthRule_apart :
    ∀ rule ∈ (earlierRules ++ [weekdaysRule]) ++ laterRules.drop 2,
      firstOfMonthRule.pattern.apart 200 rule.pattern = true := by
  decide +kernel

theorem firstOfMonth_answersLike : ∀ rule ∈ otherRules, firstOfMonthRule.AnswersLike rule := by
  intro rule member
  have listed : rule ∈ (earlierRules ++ [weekdaysRule]) ++ dayOfMonthRule :: laterRules.drop 2 :=
    member
  rcases List.mem_cons.mp (List.perm_middle.mem_iff.mp listed) with rfl | further
  · exact firstOfMonth_answersLike_dayOfMonth
  · exact Rule.answersLike_of_apart (firstOfMonthRule_apart rule further)

theorem answersLike_of_mem_rules :
    ∀ first ∈ rules, ∀ second ∈ rules, first.AnswersLike second := by
  have pairwise : (firstOfMonthRule :: otherRules).Pairwise Rule.AnswersLike :=
    List.pairwise_cons.mpr ⟨firstOfMonth_answersLike, otherRules_apart.imp Rule.answersLike_of_apart⟩
  intro first inRules second alsoInRules
  exact pairwise.forall_of_forall (fun rule _ => rule.answersLike_self)
    (rules_perm.mem_iff.mp inRules) (rules_perm.mem_iff.mp alsoInRules)

theorem map_plain_some (answer : Except Text.NumeralTooLong Reading) :
    (answer.map some).map (Option.map Reading.plain) = (answer.map Reading.plain).map some := by
  cases answer <;> rfl

/-- What a rule says of a text is what is said of it, but for the wording. -/
theorem recognize_plain_of_reading? {rule : Rule} {text : List Char} {sense : Sense Phrase}
    (inRules : rule ∈ rules) (read : rule.reading? text = some sense) :
    (recognize text).map (Option.map Reading.plain) =
      ((readingOf sense).map Reading.plain).map some := by
  unfold recognize
  cases first : rules.findSome? (·.reading? text) with
  | none =>
      rw [List.findSome?_eq_none_iff.mp first rule inRules] at read
      cases read
  | some firstSense =>
      obtain ⟨deciding, member, readDeciding⟩ := List.exists_of_findSome?_eq_some first
      rw [← answersLike_of_mem_rules deciding member rule inRules text _ _ readDeciding read]
      exact map_plain_some _

theorem exists_readingOf_of_recognize {rule : Rule} {text : List Char} {sense : Sense Phrase}
    {reading : Reading} (inRules : rule ∈ rules) (read : rule.reading? text = some sense)
    (answered : recognize text = .ok (some reading)) :
    ∃ told, readingOf sense = .ok told ∧ told.plain = reading.plain := by
  have said := recognize_plain_of_reading? inRules read
  rw [answered] at said
  cases told : readingOf sense with
  | error tooLong =>
      rw [told] at said
      cases said
  | ok ofSense =>
      rw [told] at said
      exact ⟨ofSense, rfl, (Option.some.inj (Except.ok.inj said)).symm⟩

theorem recognizeBy_plain_of_answersLike {table other : List Rule} (reordered : table.Perm other)
    (alike : ∀ first ∈ other, ∀ second ∈ other, first.AnswersLike second) (text : List Char) :
    (recognizeBy table text).map (Option.map Reading.plain) =
      (recognizeBy other text).map (Option.map Reading.plain) := by
  have unread : table.findSome? (·.reading? text) = none ↔
      other.findSome? (·.reading? text) = none := by
    simp only [List.findSome?_eq_none_iff, reordered.mem_iff]
  unfold recognizeBy
  cases found : table.findSome? (·.reading? text) with
  | none => rw [unread.mp found]
  | some sense =>
      cases otherFound : other.findSome? (·.reading? text) with
      | none =>
          rw [unread.mpr otherFound] at found
          cases found
      | some otherSense =>
          obtain ⟨rule, member, read⟩ := List.exists_of_findSome?_eq_some found
          obtain ⟨otherRule, otherMember, otherRead⟩ := List.exists_of_findSome?_eq_some otherFound
          have same := alike rule (reordered.mem_iff.mp member) otherRule otherMember text sense
            otherSense read otherRead
          dsimp only
          rw [map_plain_some, map_plain_some, same]

/-- Two rules that read the same text say the same of it but for the wording, so any order of
the rules leads to the same answers, and to none exactly for the texts that no rule reads. -/
theorem rules_unambiguous :
    (∀ first ∈ rules, ∀ second ∈ rules, first.AnswersLike second) ∧
      ∀ table : List Rule, table.Perm rules → ∀ text : List Char,
        (recognizeBy table text).map (Option.map Reading.plain) =
            (recognize text).map (Option.map Reading.plain) ∧
          (recognizeBy table text = .ok none ↔
            ∀ rule ∈ rules, rule.pattern.whole? text = none) := by
  refine ⟨answersLike_of_mem_rules, fun table reordered text => ⟨?_, ?_⟩⟩
  · exact recognizeBy_plain_of_answersLike reordered answersLike_of_mem_rules text
  · rw [recognizeBy_eq_none_iff]
    exact forall_congr' fun rule => imp_congr_left reordered.mem_iff

theorem rules_unambiguous_firstOfMonth :
    let text := "on the 1st of each month at 9:30 pm".toList
    firstOfMonthRule.reading? text = some (.ok (.firstOfMonth ⟨21, 30⟩)) ∧
      dayOfMonthRule.reading? text = some (.ok (.dayOfMonth 1 ⟨21, 30⟩)) ∧
      (readingOf (.ok (.firstOfMonth ⟨21, 30⟩))).map Reading.plain =
        (readingOf (.ok (.dayOfMonth 1 ⟨21, 30⟩))).map Reading.plain ∧
      rules.reverse.Perm rules ∧
      (recognizeBy rules.reverse text).toOption.join.map (·.interpretation) ≠
        (recognize text).toOption.join.map (·.interpretation) ∧
      (recognizeBy rules.reverse text).map (Option.map Reading.plain) =
        (recognize text).map (Option.map Reading.plain) := by
  have inRules : firstOfMonthRule ∈ rules ∧ dayOfMonthRule ∈ rules := by
    simp only [rules_perm.mem_iff, List.mem_cons, true_or, true_and]
    exact Or.inr (List.mem_append_right _ (List.mem_cons_of_mem _ List.mem_cons_self))
  have readFirst : firstOfMonthRule.reading? "on the 1st of each month at 9:30 pm".toList =
      some (.ok (.firstOfMonth ⟨21, 30⟩)) := by decide
  have readSecond : dayOfMonthRule.reading? "on the 1st of each month at 9:30 pm".toList =
      some (.ok (.dayOfMonth 1 ⟨21, 30⟩)) := by decide
  exact ⟨readFirst, readSecond,
    rules_unambiguous.1 _ inRules.1 _ inRules.2 _ _ _ readFirst readSecond,
    List.reverse_perm rules, by decide,
    (rules_unambiguous.2 rules.reverse (List.reverse_perm rules) _).1⟩

end Phrase

end Recurrence
