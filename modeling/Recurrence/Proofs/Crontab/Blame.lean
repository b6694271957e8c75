import Recurrence.Proofs.Crontab.Extensions

namespace Recurrence.Crontab

/-! The field that a refused expression is blamed on. The timetable refuses the expression, but the
blame is found by the stricter field grammar, from left to right. So a field that the timetable
reads may be blamed for another one further right. -/

variable {field : Field} {text expression : List Char} {format : Option Format}

/-! Fields by themselves -/

theorem Field.mem_all (field : Field) : field ∈ all := by
  cases field <;> decide

theorem Field.forall_mem_all {property : Field → Prop} :
    (∀ field ∈ all, property field) ↔ ∀ field, property field :=
  ⟨fun every field => every field field.mem_all, fun every field _ => every field⟩

/-- A field that does not keep a timetable from being made, whatever the other fields are. -/
def Field.Readable (field : Field) (text : List Char) : Prop :=
  ∃ spread, field.spread (Text.lower text) = .ok spread ∧
    (field = .dayOfWeek → Timetable.mixesTurns spread = false)

theorem exists_table_iff {expression : List Char} (five : (Text.words expression).length = 5) :
    (∃ table, Timetable.ofText? expression = some (.ok table)) ↔
      ∀ pair ∈ Field.all.zip (Text.words expression), pair.1.Readable pair.2 := by
  match words : Text.words expression, five with
  | [minute, hour, day, month, weekday], _ =>
      simp only [Timetable.ofText?, words, Option.some.injEq, Timetable.ofFields_eq_ok_iff,
        Field.all, List.zip_cons_cons, List.zip_nil_left, List.forall_mem_cons]
      constructor
      · intro read
        obtain ⟨_, minutes, hours, days, months, weekdays, minuteRead, hourRead, dayRead,
          monthRead, weekdayRead, unmixed, _⟩ := read
        exact ⟨⟨_, minuteRead, fun other => absurd other (by decide)⟩,
          ⟨_, hourRead, fun other => absurd other (by decide)⟩,
          ⟨_, dayRead, fun other => absurd other (by decide)⟩,
          ⟨_, monthRead, fun other => absurd other (by decide)⟩,
          ⟨_, weekdayRead, fun _ => unmixed⟩, List.forall_mem_nil _⟩
      · intro readable
        obtain ⟨⟨minutes, minuteRead, _⟩, ⟨hours, hourRead, _⟩, ⟨days, dayRead, _⟩,
          ⟨months, monthRead, _⟩, ⟨weekdays, weekdayRead, unmixed⟩, _⟩ := readable
        exact ⟨_, minutes, hours, days, months, weekdays, minuteRead, hourRead, dayRead,
          monthRead, weekdayRead, unmixed rfl, rfl⟩

theorem Field.Accepts.readable (accepts : field.Accepts text) (isWord : Text.IsWord text) :
    field.Readable text := by
  obtain ⟨parts, written⟩ := accepts.exists_writtenAs isWord
  exact ⟨_, spread_of_writtenAs written, fun _ => rfl⟩

theorem Field.readable_of_reads
    (reads : ∀ item ∈ Text.splitAt ',' text, field.Reads (Text.lower item)) :
    field.Readable text := by
  obtain ⟨entries, read⟩ := exists_spread_of_reads reads
  exact ⟨_, read, fun _ => rfl⟩

theorem Field.Readable.forms (readable : field.Readable text)
    (noOperator : ∀ piece ∈ fieldPieces text, operatorOf? piece = none) :
    (Text.lower text).head? = some 'r' ∨
      ∀ item ∈ Text.splitAt ',' text, field.Reads (Text.lower item) ∨
        field = .dayOfWeek ∧ IsOverlooked (Text.lower item) := by
  obtain ⟨spread, read, _⟩ := readable
  exact (forms_of_spread read noOperator).imp_left And.left

/-- One field as it is, with stars in the other four. -/
def loneFields (field : Field) (text : List Char) : List (List Char) :=
  Field.all.map fun place => if place = field then text else ['*']

def lone (field : Field) (text : List Char) : List Char :=
  Text.unwords (loneFields field text)

theorem isWord_of_mem_loneFields (isWord : Text.IsWord text) :
    ∀ word ∈ loneFields field text, Text.IsWord word := by
  simp only [loneFields, List.forall_mem_map]
  intro place _
  split
  · exact isWord
  · exact (writtenAs_star place).isWord

theorem isValid_lone_iff (isWord : Text.IsWord text) :
    IsValid (lone field text) none ↔
      (∀ piece ∈ fieldPieces text, operatorOf? piece = none) ∧ field.Readable text := by
  have areWords : ∀ word ∈ loneFields field text, Text.IsWord word := isWord_of_mem_loneFields isWord
  have words := Text.words_unwords areWords
  have starRead (place : Field) : place.Readable ['*'] :=
    ⟨_, spread_of_writtenAs (writtenAs_star place), fun _ => rfl⟩
  have starPieces : ∀ piece ∈ fieldPieces ['*'], operatorOf? piece = none :=
    (writtenAs_star .minute).noOperator
  rw [lone, isValid_unwords_iff areWords rfl, exists_table_iff (by rw [words]; rfl), firstOperator?,
    words, List.findSome?_eq_none_iff]
  refine and_congr ?_ ?_
  · simp only [List.forall_mem_flatMap, loneFields, List.forall_mem_map]
    refine ⟨fun none => ?_, fun none place _ => ?_⟩
    · simpa using none field field.mem_all
    · split
      · exact none
      · exact starPieces
  · rw [loneFields, ← List.map_prod_left_eq_zip]
    simp only [List.forall_mem_map]
    refine ⟨fun readable => ?_, fun readable place _ => ?_⟩
    · simpa using readable field field.mem_all
    · split
      · rename_i same
        exact same ▸ readable
      · exact starRead place


/-! Blame -/

/-- An expression of five fields that is refused for one of them passes the check for operators,
makes up no timetable, and gets the complaint about its leftmost field with a fault. -/
theorem refused_of_validate {fault : FieldFault} {found : Option Format}
    (five : (Text.words expression).length = 5)
    (refused : validate expression format = .ok ⟨some (.field fault), found⟩) :
    (∀ text ∈ Text.words expression, ∀ piece ∈ fieldPieces text, operatorOf? piece = none) ∧
      IsLeftmostFault (Text.words expression) fault ∧
      ∃ pair ∈ Field.all.zip (Text.words expression), ¬ pair.1.Readable pair.2 := by
  obtain (early | ⟨_, early⟩ | ⟨_, _, early⟩) | content := contentDefect?_of_validate refused
  · cases early
  · cases early
  · cases early
  · obtain ⟨operators, noTimetable⟩ := timetableDefect?_of_contentDefect? content
    have words := (splitSeconds_of_five five).2
    obtain ⟨blamed, same, leftmost⟩ := isLeftmostFault_of_timetableDefect? noTimetable
    cases same
    have unmade := not_exists_table_of_timetableDefect? noTimetable
    rw [exists_table_iff (by rw [words, five]), words] at unmade
    rw [firstOperator?, words, List.findSome?_eq_none_iff] at operators
    rw [words] at leftmost
    refine ⟨fun text member piece cut => ?_, leftmost, ?_⟩
    · exact operators piece (List.mem_flatMap.mpr ⟨text, member, cut⟩)
    · simpa using unmade

/-- An expression that is refused for its fields has one that is refused by itself, at the blamed
field or behind it. The blamed field is refused by itself unless the timetable reads it: then it has
only items of the timetable's own grammar, or leaves its value to chance. -/
theorem isValid_lone_blamed_iff {fault : FieldFault} {found : Option Format}
    (five : (Text.words expression).length = 5)
    (refused : validate expression format = .ok ⟨some (.field fault), found⟩) :
    IsLeftmostFault (Text.words expression) fault ∧
      (∃ wrong ∈ Field.all.zip (Text.words expression),
        ¬ wrong.1.Accepts wrong.2 ∧ ¬ IsValid (lone wrong.1 wrong.2) none) ∧
      ∀ field text own, (field, text) ∈ Field.all.zip (Text.words expression) →
        expandField field.bounds text = .error own → own.message = fault.message →
        (IsValid (lone field text) none ↔ field.Readable text) ∧
        ((∀ item ∈ Text.splitAt ',' text, field.Reads (Text.lower item)) →
          IsValid (lone field text) none) ∧
        (IsValid (lone field text) none → (Text.lower text).head? = some 'r' ∨
          ∀ item ∈ Text.splitAt ',' text, field.Reads (Text.lower item) ∨
            field = .dayOfWeek ∧ IsOverlooked (Text.lower item)) := by
  obtain ⟨operators, leftmost, ⟨wrong, placed, unreadable⟩⟩ := refused_of_validate five refused
  have alone {field : Field} {text : List Char}
      (member : (field, text) ∈ Field.all.zip (Text.words expression)) :
      IsValid (lone field text) none ↔ field.Readable text := by
    have inWords := (List.of_mem_zip member).2
    rw [isValid_lone_iff (Text.isWord_of_mem_words inWords)]
    exact and_iff_right (operators text inWords)
  refine ⟨leftmost, ⟨wrong, placed, ?_, ?_⟩, ?_⟩
  · have isWord := Text.isWord_of_mem_words (List.of_mem_zip placed).2
    exact fun accepts => unreadable (accepts.readable isWord)
  · rwa [alone placed]
  · intro field text own member _ _
    rw [alone member]
    exact ⟨Iff.rfl, Field.readable_of_reads,
      fun readable => readable.forms (operators text (List.of_mem_zip member).2)⟩

theorem isValid_lone_blamed_iff_monthNames :
    validate "0 9 * Mar-may,8 8".toList none =
        .ok ⟨some (.field (.notNumber "month".toList "Mar".toList)), some .five⟩ ∧
      IsLeftmostFault (Text.words "0 9 * Mar-may,8 8".toList)
        (.notNumber "month".toList "Mar".toList) ∧
      IsValid (lone .month "Mar-may,8".toList) none := by
  have refused : validate "0 9 * Mar-may,8 8".toList none =
      .ok ⟨some (.field (.notNumber "month".toList "Mar".toList)), some .five⟩ := by decide
  have fault : expandField Field.month.bounds "Mar-may,8".toList =
      .error (.notNumber "month".toList "Mar".toList) := by decide
  obtain ⟨leftmost, _, blamed⟩ := isValid_lone_blamed_iff (by decide) refused
  have forms := (blamed .month "Mar-may,8".toList _ (by decide) fault rfl).2.1
  refine ⟨refused, leftmost, forms fun item member => ?_⟩
  have items : Text.splitAt ',' "Mar-may,8".toList = ["Mar-may".toList, "8".toList] := by decide
  have march : Field.month.readTerm? "mar".toList = some 3 := by decide
  have may : Field.month.readTerm? "may".toList = some 5 := by decide
  have august : Field.month.readTerm? "8".toList = some 8 := by decide
  rw [items] at member
  rcases List.mem_cons.mp member with rfl | further
  · rw [show Text.lower "Mar-may".toList = "mar".toList ++ '-' :: "may".toList by decide]
    exact .range march may (by decide)
  · rw [List.mem_singleton.mp further, show Text.lower "8".toList = "8".toList by decide]
    exact .value august (by decide) (by decide)

/-- A month given by its name is blamed for a weekday that does not exist. -/
theorem isValid_lone_month :
    ¬ ∀ expression format fault found, (Text.words expression).length = 5 →
      validate expression format = .ok ⟨some (.field fault), found⟩ →
      ∀ field text, (field, text) ∈ Field.all.zip (Text.words expression) →
        expandField field.bounds text = .error fault → ¬ IsValid (lone field text) none := by
  intro right
  refine right "0 0 * jan 8".toList none (.notNumber "month".toList "jan".toList) (some .five)
    (by decide) (by decide) .month "jan".toList (by decide) (by decide) ?_
  decide

end Recurrence.Crontab
