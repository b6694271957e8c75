import Recurrence.Proofs.Pattern.Apart
import Recurrence.Proofs.Phrase.Senses
import Recurrence.Proofs.Phrase.Weekdays

namespace Recurrence.Phrase

/-! The rules as a table. All of them come to lines that fit their fields, but for the one
for lists of weekdays, which may come to no weekday at all. -/

open Pattern

def weekdaysRule : Rule :=
  ⟨inOrder ["every", blanks, capture .weekdays weekdayList, maybeAtTime],
    fun captures => timed (.weekdays (weekdaysOf captures)) captures⟩

def earlierRules : List Rule := idioms ++ intervals ++ timesOfDay.take 5

def laterRules : List Rule := monthly ++ twice ++ weeklyAndYearly ++ approximations

theorem rules_eq : rules = earlierRules ++ weekdaysRule :: laterRules := rfl

theorem idioms_fit : ∀ rule ∈ idioms, rule.Fits := by
  simp only [idioms, List.forall_mem_cons]
  exact ⟨always_fits (by decide), always_fits (by decide), always_fits (by decide),
    always_fits (by decide), always_fits (by decide), fun _ member => by cases member⟩

theorem intervals_fit : ∀ rule ∈ intervals, rule.Fits := by
  simp only [intervals, List.forall_mem_cons]
  exact ⟨minutes_fit, hours_fit, countedDays_fits, countedDays_fits,
    fun _ member => by cases member⟩

theorem timesOfDay_fit : ∀ rule ∈ timesOfDay.take 5, rule.Fits := by
  simp only [timesOfDay, List.take_succ_cons, List.take_zero, List.forall_mem_cons]
  exact ⟨timed_fits fun _ _ inRange => lineAt_fits inRange trivial trivial trivial,
    timed_fits fun _ _ inRange => lineAt_fits inRange trivial trivial trivial,
    timed_fits fun _ _ inRange => lineAt_fits inRange trivial trivial (code_fits _),
    timed_fits fun _ _ inRange => lineAt_fits inRange trivial trivial (by decide),
    timed_fits fun _ _ inRange => lineAt_fits inRange trivial trivial (by decide),
    fun _ member => by cases member⟩

theorem monthly_fit : ∀ rule ∈ monthly, rule.Fits := by
  simp only [monthly, List.forall_mem_cons]
  exact ⟨timed_fits fun _ _ inRange => lineAt_fits inRange (by decide) trivial trivial,
    onDayOfMonth_fits, always_fits (by decide), always_fits (by decide),
    fun _ member => by cases member⟩

theorem twice_fit : ∀ rule ∈ twice, rule.Fits := by
  simp only [twice, List.forall_mem_cons]
  exact ⟨always_fits (by decide), twiceADayAtHours_fits, fun _ member => by cases member⟩

theorem weeklyAndYearly_fit : ∀ rule ∈ weeklyAndYearly, rule.Fits := by
  simp only [weeklyAndYearly, List.forall_mem_cons]
  exact ⟨always_fits (by decide), always_fits (by decide), always_fits (by decide),
    always_fits (by decide), always_fits (by decide), yearlyOn_fits,
    fun _ member => by cases member⟩

theorem approximations_fit : ∀ rule ∈ approximations, rule.Fits := by
  simp only [approximations, List.forall_mem_cons]
  exact ⟨timed_fits fun _ _ inRange => lineAt_fits inRange trivial trivial (code_fits _),
    nthWeekdayOf_fits,
    timed_fits fun _ _ inRange => lineAt_fits inRange (by decide) trivial trivial,
    nthWeekdayOf_fits, weeks_fit, fun _ member => by cases member⟩

theorem earlierRules_fit : ∀ rule ∈ earlierRules, rule.Fits := by
  simp only [earlierRules, List.forall_mem_append]
  exact ⟨⟨idioms_fit, intervals_fit⟩, timesOfDay_fit⟩

theorem laterRules_fit : ∀ rule ∈ laterRules, rule.Fits := by
  simp only [laterRules, List.forall_mem_append]
  exact ⟨⟨⟨monthly_fit, twice_fit⟩, weeklyAndYearly_fit⟩, approximations_fit⟩

/-! Tables of rules -/

/-- The reading by the first rule of a table that applies, if there is one. -/
def recognizeBy (table : List Rule) (text : List Char) :
    Except Text.NumeralTooLong (Option Reading) :=
  match table.findSome? (·.reading? text) with
  | some sense => (readingOf sense).map some
  | none => .ok none

theorem recognizeBy_rules (text : List Char) : recognizeBy rules text = recognize text := rfl

theorem recognizeBy_eq_none_iff {table : List Rule} {text : List Char} :
    recognizeBy table text = .ok none ↔ ∀ rule ∈ table, rule.pattern.whole? text = none := by
  have unread : table.findSome? (·.reading? text) = none ↔
      ∀ rule ∈ table, rule.pattern.whole? text = none := by
    simp only [List.findSome?_eq_none_iff, Rule.reading?, Option.map_eq_none_iff]
  rw [← unread, recognizeBy]
  cases table.findSome? (·.reading? text) with
  | none => simp
  | some sense => cases reading : readingOf sense <;> simp [reading, Except.map]

/-! Lists of weekdays -/

/-- A text is read as a list of weekdays, but each of their words is a part of a longer one. -/
def ListsNoWeekday (text : List Char) : Prop :=
  ∃ captures, weekdaysRule.pattern.whole? text = some captures ∧
    ¬ NamesWeekday (captures.text .weekdays)

theorem earlierRules_apart :
    ∀ rule ∈ earlierRules, rule.pattern.apart 200 weekdaysRule.pattern = true := by
  decide +kernel

theorem findSome?_of_weekdaysRule {text : List Char} {captures : Captures Slot}
    (read : weekdaysRule.pattern.whole? text = some captures) :
    rules.findSome? (·.reading? text) = some (weekdaysRule.sense captures) := by
  have earlier : earlierRules.findSome? (·.reading? text) = none := by
    rw [List.findSome?_eq_none_iff]
    intro rule member
    have unread := Pattern.whole?_eq_none_of_apart (earlierRules_apart rule member) read
    rw [Rule.reading?, unread, Option.map_none]
  rw [rules_eq, List.findSome?_append, earlier, Option.none_or, List.findSome?_cons,
    Rule.reading?, read, Option.map_some]

theorem line_fits_of_other_rule {text : List Char} {phrase : Phrase}
    (unread : weekdaysRule.pattern.whole? text = none)
    (found : rules.findSome? (·.reading? text) = some (.ok phrase)) : phrase.line.Fits := by
  obtain ⟨rule, member, reading⟩ := List.exists_of_findSome?_eq_some found
  obtain ⟨captures, read, sense⟩ := Option.map_eq_some_iff.mp reading
  rw [rules_eq] at member
  rcases List.mem_append.mp member with earlier | behind
  · exact earlierRules_fit rule earlier captures phrase sense
  · rcases List.mem_cons.mp behind with rfl | later
    · rw [unread] at read
      cases read
    · exact laterRules_fit rule later captures phrase sense

theorem weekdaysRule_sense_ok {captures : Captures Slot} {phrase : Phrase}
    (sense : weekdaysRule.sense captures = .ok phrase) :
    ∃ clock : Clock, clock.InRange ∧ phrase = .weekdays (weekdaysOf captures) clock := by
  cases told : clockOf captures with
  | error fault => simp [weekdaysRule, timed, told, Except.map] at sense
  | ok clock =>
      simp only [weekdaysRule, timed, told, Except.map, Except.ok.injEq] at sense
      exact ⟨clock, clockOf_inRange told, sense.symm⟩

/-- What rules read has a line that fits, unless it is a list of no weekdays. -/
theorem line_fits_or_listsNoWeekday {text : List Char} {phrase : Phrase}
    (found : rules.findSome? (·.reading? text) = some (.ok phrase)) :
    (phrase.line.Fits ∧ ¬ ListsNoWeekday text) ∨
      ∃ clock : Clock, clock.InRange ∧ phrase = .weekdays [] clock ∧ ListsNoWeekday text := by
  -- Either the rule for lists decides, since no earlier one reads what it reads, or another does.
  cases read : weekdaysRule.pattern.whole? text with
  | none =>
      refine Or.inl ⟨line_fits_of_other_rule read found, ?_⟩
      intro listed
      obtain ⟨captures, readOther, _⟩ := listed
      rw [read] at readOther
      cases readOther
  | some captures =>
      rw [findSome?_of_weekdaysRule read, Option.some.injEq] at found
      obtain ⟨clock, inRange, rfl⟩ := weekdaysRule_sense_ok found
      by_cases names : NamesWeekday (captures.text .weekdays)
      · refine Or.inl ⟨weekdays_line_fits ?_ inRange, ?_⟩
        · exact fun empty => weekdaysOf_eq_nil_iff.mp empty names
        · intro listed
          obtain ⟨other, readOther, absent⟩ := listed
          rw [read, Option.some.injEq] at readOther
          exact absent (readOther ▸ names)
      · refine Or.inr ⟨clock, inRange, ?_, captures, read, names⟩
        rw [weekdaysOf_eq_nil_iff.mpr names]

end Recurrence.Phrase
