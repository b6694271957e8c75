import Recurrence.Proofs.Phrase.Canonical
import Recurrence.Proofs.Phrase.Captures
import Recurrence.Proofs.Phrase.WeekdayLists
import Recurrence.Proofs.Schedules

namespace Recurrence

/-! Schedules of several weekdays. A list of them is read as the days that its names mean, in the
order of the week and each once. Only the names that stand alone count, so a day is lost exactly if
an "and" touches each of its names. -/

open Crontab Phrase Pattern

variable {teller : TimeTeller} {text : List Char} {format : Format} {clock : Clock}
variable {list : WeekdayList} {captures : Captures Slot}

/-! Days of lists -/

/-- One of the names means the day. -/
def Weekday.IsNamedIn (day : Weekday) (names : List (List Char)) : Prop :=
  ∃ name ∈ names, Weekday.ofWord? name = some day

instance (day : Weekday) (names : List (List Char)) : Decidable (day.IsNamedIn names) :=
  inferInstanceAs (Decidable (∃ name ∈ names, Weekday.ofWord? name = some day))

def Phrase.WeekdayList.days (list : WeekdayList) : List Weekday :=
  Weekday.sorted (list.standing.filterMap Weekday.ofWord?)

theorem Phrase.WeekdayList.mem_days {day : Weekday} :
    day ∈ list.days ↔ day.IsNamedIn list.standing := by
  rw [days, Weekday.mem_sorted, List.mem_filterMap, Weekday.IsNamedIn]

theorem Phrase.WeekdayList.standingFrom_subset (touched : Bool) (name : List Char)
    (others : List (List Char × List Char)) :
    standingFrom touched name others ⊆ name :: others.map Prod.snd := by
  induction others generalizing touched name with
  | nil => cases touched <;> simp [standingFrom]
  | cons pair others ih =>
      obtain ⟨link, next⟩ := pair
      refine List.append_subset.mpr ⟨?_, List.subset_cons_of_subset _ (ih _ next)⟩
      split
      · exact List.nil_subset _
      · exact List.cons_subset_cons _ (List.nil_subset _)

/-- Nothing is lost of a list exactly if each of its days has a name that stands alone. -/
theorem Phrase.WeekdayList.mem_days_iff_isNamedIn_names (proper : list.IsProper) :
    (∀ day, day ∈ list.days ↔ day.IsNamedIn list.names) ↔
      ∀ name ∈ list.names, ∃ alone ∈ list.standing,
        Weekday.ofWord? alone = Weekday.ofWord? name := by
  constructor
  · intro complete name member
    have weekday : (Weekday.ofWord? name).isSome := by
      rcases List.mem_cons.mp member with rfl | further
      · exact proper.first
      · obtain ⟨pair, listed, rfl⟩ := List.mem_map.mp further
        exact (proper.others pair listed).2
    obtain ⟨day, named⟩ := Option.isSome_iff_exists.mp weekday
    obtain ⟨alone, stands, same⟩ := mem_days.mp ((complete day).mpr ⟨name, member, named⟩)
    exact ⟨alone, stands, same.trans named.symm⟩
  · intro everyName day
    rw [mem_days]
    constructor
    · intro named
      obtain ⟨name, stands, same⟩ := named
      exact ⟨name, standingFrom_subset _ _ _ stands, same⟩
    · intro named
      obtain ⟨name, member, same⟩ := named
      obtain ⟨alone, stands, alike⟩ := everyName name member
      exact ⟨alone, stands, alike.trans same⟩

theorem weekdaysOf_eq_days (proper : list.IsProper)
    (captured : captures.text .weekdays = list.text) : weekdaysOf captures = list.days := by
  rw [weekdaysOf_eq, captured]
  refine Weekday.sorted_congr fun day => ?_
  simp only [List.mem_filterMap]
  refine exists_congr fun word => and_congr_left fun named => ?_
  exact proper.mem_wordRuns_iff (Option.isSome_of_mem named)

/-! Texts with lists -/

/-- The rule for lists reads the text, and captures a list and a time of day. -/
structure ListsWeekdays (text : List Char) (list : WeekdayList) (clock : Clock) : Prop where
  proper : list.IsProper
  read : (weekdaysRule.pattern.whole? (canonical text)).map
    (fun captures => (captures.text .weekdays, clockOf captures)) = some (list.text, .ok clock)

theorem exists_list_of_whole? {phrase : List Char}
    (read : weekdaysRule.pattern.whole? phrase = some captures) :
    ∃! list : WeekdayList, list.IsProper ∧ list.text = captures.text .weekdays := by
  have inRules : weekdaysRule ∈ rules := by
    rw [rules_eq]
    exact List.mem_append_right _ List.mem_cons_self
  have captured := Rule.captured_of_whole? inRules read
  obtain ⟨text, same⟩ := Option.isSome_iff_exists.mp
    (captured.taken .weekdays (by decide) (by decide))
  have reads : weekdayList.Matches text := captured.admits .weekdays text same
  obtain ⟨list, proper, rfl⟩ := exists_list_of_matches reads
  have textSame : list.text = captures.text .weekdays := by
    rw [Captures.text, same, Option.getD_some]
  exact ⟨list, ⟨proper, textSame⟩, fun other isOther =>
    isOther.1.eq_of_text_eq proper (isOther.2.trans textSame.symm)⟩

theorem ListsWeekdays.recognize_eq (lists : ListsWeekdays text list clock) :
    recognize (canonical text) = .ok (some (Phrase.weekdays list.days clock).reading) := by
  obtain ⟨captures, read, same⟩ := Option.map_eq_some_iff.mp lists.read
  obtain ⟨captured, told⟩ := Prod.mk.inj same
  have sense : weekdaysRule.sense captures = .ok (.weekdays list.days clock) := by
    simp only [weekdaysRule, timed, told, Except.map, weekdaysOf_eq_days lists.proper captured]
  rw [recognize, findSome?_of_weekdaysRule read, sense]
  rfl

theorem ListsWeekdays.solid (lists : ListsWeekdays text list clock) :
    ¬ text.all Text.isBlank := by
  intro blank
  have unread : weekdaysRule.pattern.whole? [] = none := by decide
  have read := lists.read
  rw [canonical_of_blank (List.all_eq_true.mp blank), unread] at read
  cases read

theorem ListsWeekdays.interpretWith_eq (lists : ListsWeekdays text list clock)
    (teller : TimeTeller) (format : Format) :
    interpretWith teller text format =
      .ok ((Phrase.weekdays list.days clock).reading.inFormat format) := by
  rw [interpretWith, inquire, if_neg lists.solid, lists.recognize_eq]
  rfl

theorem Reading.schedule?_inFormat_of_line {reading : Reading} {line : Line}
    (scheduled : reading.schedule? = some line.text) (format : Format) :
    (reading.inFormat format).schedule? = some (line.textIn format) := by
  cases format with
  | five => exact scheduled
  | six =>
      cases outcome : reading.outcome with
      | error complaint =>
          rw [schedule?, outcome] at scheduled
          cases scheduled
      | ok schedule =>
          rw [schedule?, outcome] at scheduled
          cases scheduled
          simp only [inFormat, withSeconds, schedule?, outcome, Except.map, Line.textIn]
          rfl

/-- Every text that the rule for lists reads has one list, and its schedule is for the days that
the names mean that stand alone in it: for all the days that are named exactly if each of the
names has one of the same day that stands alone. Neither order nor repetition matter. -/
theorem interpretWith_weekdayList (text : List Char) :
    (∀ captures, weekdaysRule.pattern.whole? (canonical text) = some captures →
      ∃! list : WeekdayList, list.IsProper ∧ list.text = captures.text .weekdays) ∧
    ∀ list clock, ListsWeekdays text list clock → ∀ (teller : TimeTeller) (format : Format),
      ∃ (days : List Weekday) (line : Line),
        interpretWith teller text format =
            .ok ((Phrase.weekdays days clock).reading.inFormat format) ∧
          ((Phrase.weekdays days clock).reading.inFormat format).schedule? =
            some (line.textIn format) ∧
          line.dayOfWeek.text = Text.joinWith "," (days.map fun day => Text.decimal day.code) ∧
          (days.map Weekday.code).Pairwise (· < ·) ∧
          (∀ day, day ∈ days ↔ day.IsNamedIn list.standing) ∧
          list.standing ⊆ list.names ∧
          ((∀ day, day ∈ days ↔ day.IsNamedIn list.names) ↔
            ∀ name ∈ list.names, ∃ alone ∈ list.standing,
              Weekday.ofWord? alone = Weekday.ofWord? name) ∧
          ∀ other otherList, ListsWeekdays other otherList clock →
            (∀ day : Weekday, day.IsNamedIn otherList.standing ↔ day.IsNamedIn list.standing) →
            interpretWith teller other format = interpretWith teller text format := by
  refine ⟨fun captures read => exists_list_of_whole? read,
    fun list clock lists teller format => ?_⟩
  refine ⟨list.days, (Phrase.weekdays list.days clock).line, lists.interpretWith_eq teller format,
    Reading.schedule?_inFormat_of_line (Phrase.schedule?_reading _) format, ?_,
    Weekday.sorted_ascending _, fun day => WeekdayList.mem_days,
    WeekdayList.standingFrom_subset _ _ _,
    WeekdayList.mem_days_iff_isNamedIn_names lists.proper, ?_⟩
  · simp only [Phrase.line, lineAt, Term.text, List.map_map, Function.comp_def, Text.signed_natCast]
  · intro other otherList otherLists same
    have days : otherList.days = list.days := by
      refine Weekday.sorted_congr fun day => ?_
      simpa only [Weekday.IsNamedIn, List.mem_filterMap] using same day
    rw [otherLists.interpretWith_eq, lists.interpretWith_eq, days]

theorem isProper_of_whole? {first : List Char} {others : List (List Char × List Char)}
    (several : others ≠ []) (named : (Weekday.ofWord? first).isSome)
    (linked : ∀ pair ∈ others, linkPattern.whole? pair.1 = some [] ∧
      (Weekday.ofWord? pair.2).isSome) : WeekdayList.IsProper ⟨first, others⟩ where
  several := several
  first := named
  others pair member := ⟨matches_of_whole? (linked pair member).1, (linked pair member).2⟩

theorem interpretWith_weekdayList_reordered :
    let text := "Every Wed, Mon and Wednesday at 9:30 pm".toList
    (∃! list : WeekdayList, list.IsProper ∧ list.text = "wed, mon and wednesday".toList) ∧
      ∃ days : List Weekday, (∀ day, day ∈ days ↔ day = .monday ∨ day = .wednesday) ∧
        interpretWith mentionedTime text .six =
          .ok ((Phrase.weekdays days ⟨21, 30⟩).reading.inFormat .six) ∧
        interpretWith mentionedTime "every monday,wed at 21:30".toList .six =
          interpretWith mentionedTime text .six := by
  have lists : ListsWeekdays "Every Wed, Mon and Wednesday at 9:30 pm".toList
      ⟨"wed".toList, [(", ".toList, "mon".toList), (" and ".toList, "wednesday".toList)]⟩
      ⟨21, 30⟩ :=
    ⟨isProper_of_whole? (by decide) (by decide) (by decide +kernel), by decide +kernel⟩
  have reordered : ListsWeekdays "every monday,wed at 21:30".toList
      ⟨"monday".toList, [(",".toList, "wed".toList)]⟩ ⟨21, 30⟩ :=
    ⟨isProper_of_whole? (by decide) (by decide) (by decide +kernel), by decide +kernel⟩
  obtain ⟨captures, read, captured⟩ := Option.map_eq_some_iff.mp lists.read
  have unique := (interpretWith_weekdayList _).1 captures read
  rw [(Prod.mk.inj captured).1] at unique
  obtain ⟨days, line, answer, _, _, _, standing, _, _, alike⟩ :=
    (interpretWith_weekdayList _).2 _ _ lists mentionedTime .six
  refine ⟨unique, days, fun day => (standing day).trans ?_, answer,
    alike _ _ reordered fun day => ?_⟩
  · cases day <;> decide +kernel
  · cases day <;> decide +kernel

/-- The names that an "and" touches are not in the schedule. -/
theorem interpret_touched_loses_weekdays :
    ∃ list reading, ListsWeekdays "every monday, tueandwed".toList list .midnight ∧
      Weekday.tuesday.IsNamedIn list.names ∧ Weekday.wednesday.IsNamedIn list.names ∧
      interpret "every monday, tueandwed".toList .five = .ok reading ∧
      reading.schedule? = some "0 0 * * 1".toList := by
  refine ⟨⟨"monday".toList, [(", ".toList, "tue".toList), ("and".toList, "wed".toList)]⟩,
    (Phrase.weekdays [.monday] .midnight).reading, ⟨?_, by decide +kernel⟩, by decide, by decide,
    by decide +kernel, by decide +kernel⟩
  exact isProper_of_whole? (by decide) (by decide) (by decide +kernel)

end Recurrence
