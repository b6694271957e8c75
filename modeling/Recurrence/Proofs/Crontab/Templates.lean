import Mathlib.Logic.Function.Basic
import Recurrence.Proofs.Crontab.Blame
import Recurrence.Proofs.Crontab.Entries

namespace Recurrence.Crontab

/-! Expressions of five fields in which one item is left open. What fills it in makes no difference
to the other items and fields, so two fillings that are read alike have the same runs. -/

structure Template where
  texts : Field → List Char
  /-- The field of the open item, which takes the place of its text. -/
  field : Field
  before : List (List Char)
  behind : List (List Char)
  separate : ∀ item ∈ before ++ behind, ',' ∉ item

namespace Template

def fieldText (template : Template) (item : List Char) : List Char :=
  [','].intercalate (template.before ++ item :: template.behind)

def textsWith (template : Template) (item : List Char) : Field → List Char :=
  Function.update template.texts template.field (template.fieldText item)

/-- The expression, whatever its blanks are, is the template with the item filled in. -/
def Writes (template : Template) (item expression : List Char) : Prop :=
  Text.words expression = Field.all.map (template.textsWith item)

instance (template : Template) (item expression : List Char) :
    Decidable (template.Writes item expression) :=
  inferInstanceAs (Decidable (_ = _))

variable {template : Template} {item other expression changed : List Char}

theorem textsWith_field (template : Template) (item : List Char) :
    template.textsWith item template.field = template.fieldText item :=
  Function.update_self _ _ _

theorem textsWith_of_ne {field : Field} (different : field ≠ template.field) (item : List Char) :
    template.textsWith item field = template.texts field :=
  Function.update_of_ne different _ _

theorem splitAt_fieldText (noComma : ',' ∉ item) :
    Text.splitAt ',' (template.fieldText item) = template.before ++ item :: template.behind := by
  refine Text.splitAt_intercalate (by simp) fun piece member => ?_
  rw [List.mem_append, List.mem_cons] at member
  rcases member with inFront | rfl | further
  · exact template.separate piece (List.mem_append_left _ inFront)
  · exact noComma
  · exact template.separate piece (List.mem_append_right _ further)

theorem Writes.five (writes : template.Writes item expression) :
    (Text.words expression).length = 5 := by
  rw [writes, List.length_map]
  rfl

theorem forall_zip_words (writes : template.Writes item expression)
    {property : Field × List Char → Prop} :
    (∀ pair ∈ Field.all.zip (Text.words expression), property pair) ↔
      ∀ field, property (field, template.textsWith item field) := by
  rw [writes, ← List.map_prod_left_eq_zip, List.forall_mem_map]
  exact Field.forall_mem_all

end Template

/-! Items of expressions -/

theorem map_fields {texts : List (List Char)} (five : texts.length = Field.all.length) :
    Field.all.map (fun field => texts.getD (Field.all.idxOf field) []) = texts := by
  refine List.ext_getElem (by rw [List.length_map, five]) fun place inFields inTexts => ?_
  have distinct : Field.all.Nodup := by decide
  rw [List.getElem_map, distinct.idxOf_getElem, List.getD, List.getElem?_eq_getElem inTexts,
    Option.getD_some]

/-- Every item of an expression may be left open in it. -/
theorem HasItem.exists_template {expression item : List Char} {field : Field}
    (five : (Text.words expression).length = 5) (hasItem : HasItem expression field item) :
    ∃ template : Template, template.field = field ∧ template.Writes item expression := by
  obtain ⟨text, placed, member⟩ := hasItem
  rw [(splitSeconds_of_five five).2] at placed
  let texts (field : Field) : List Char := (Text.words expression).getD (Field.all.idxOf field) []
  have written : Field.all.map texts = Text.words expression := map_fields five
  rw [← written, ← List.map_prod_left_eq_zip, List.mem_map] at placed
  obtain ⟨field, _, same⟩ := placed
  obtain ⟨rfl, rfl⟩ := Prod.mk.inj same
  obtain ⟨before, behind, cut⟩ := List.append_of_mem member
  refine ⟨⟨texts, field, before, behind, fun piece inPieces comma => ?_⟩, rfl, ?_⟩
  · have inText : piece ∈ Text.splitAt ',' (texts field) := by
      rw [cut, List.mem_append, List.mem_cons]
      exact (List.mem_append.mp inPieces).imp_right Or.inr
    exact (Text.mem_of_mem_splitAt inText ',' comma).2 rfl
  · have filled : [','].intercalate (before ++ item :: behind) = texts field := by
      rw [← cut, Text.intercalate_splitAt]
    change Text.words expression =
      Field.all.map (Function.update texts field ([','].intercalate (before ++ item :: behind)))
    rw [filled, Function.update_eq_self, written]

/-! Fields that are read alike -/

theorem Timetable.isOpen_congr {field : Field} {spread : Spread} {one other : List Char}
    (stars : one.contains '*' = other.contains '*') :
    isOpen field spread one = isOpen field spread other := by
  rw [isOpen, stars, isOpen]

theorem nextRuns_of_table {expression : List Char} {table : Timetable}
    (read : Timetable.ofText? (splitSeconds expression).2 = some (.ok table)) (count : Int)
    (format : Format) (start : Moment) :
    nextRuns expression count format start =
      if (Text.words expression).length = format.fieldCount then table.runs count.toNat start
      else [] := by
  simp only [nextRuns, read]

theorem nextRuns_of_unread {expression : List Char}
    (unread : ¬ ∃ table, Timetable.ofText? (splitSeconds expression).2 = some (.ok table))
    (count : Int) (format : Format) (start : Moment) :
    nextRuns expression count format start = [] := by
  unfold nextRuns
  split
  · split
    · rename_i table read
      exact absurd ⟨table, read⟩ unread
    · rfl
  · rfl

/-- The timetables of two expressions name the same moments, save the first one of the calendar. -/
def RunTogether (expression other : List Char) : Prop :=
  ∀ table otherTable, Timetable.ofText? (splitSeconds expression).2 = some (.ok table) →
    Timetable.ofText? (splitSeconds other).2 = some (.ok otherTable) →
    ∀ start moment : Moment, start < moment → (table.RunsAt moment ↔ otherTable.RunsAt moment)

theorem nextRuns_eq_iff {expression other : List Char} {table otherTable : Timetable}
    (five : (Text.words expression).length = 5) (otherFive : (Text.words other).length = 5)
    (read : Timetable.ofText? (splitSeconds expression).2 = some (.ok table))
    (readOther : Timetable.ofText? (splitSeconds other).2 = some (.ok otherTable)) :
    (∀ count layout start,
        nextRuns expression count layout start = nextRuns other count layout start) ↔
      RunTogether expression other := by
  have ordered := Timetable.ofText?_ordered read
  have otherOrdered := Timetable.ofText?_ordered readOther
  have together : RunTogether expression other ↔ ∀ start moment : Moment, start < moment →
      (table.RunsAt moment ↔ otherTable.RunsAt moment) := by
    refine ⟨fun every => every _ _ read readOther, fun every one another readOne readAnother => ?_⟩
    cases read.symm.trans readOne
    cases readOther.symm.trans readAnother
    exact every
  rw [together, ← Timetable.runs_eq_iff ordered otherOrdered]
  simp only [nextRuns_of_table read, nextRuns_of_table readOther, five, otherFive]
  constructor
  · intro same count start
    simpa [Format.fieldCount] using same count .five start
  · intro same count layout start
    rw [same]

namespace Template

variable {template : Template} {item other expression changed : List Char}

theorem Writes.ofText?_eq (writes : template.Writes item expression) :
    Timetable.ofText? (splitSeconds expression).2 =
      some (Timetable.ofFields (template.textsWith item .minute) (template.textsWith item .hour)
        (template.textsWith item .dayOfMonth) (template.textsWith item .month)
        (template.textsWith item .dayOfWeek)) :=
  ofText?_unwords writes

/-- Whether two fillings of the open item are read alike is a matter of its field only. -/
structure ReadAlike (template : Template) (item other : List Char) : Prop where
  spreads : ∀ one another,
    template.field.spread (Text.lower (template.fieldText item)) = .ok one →
    template.field.spread (Text.lower (template.fieldText other)) = .ok another →
    one.Alike template.field another
  stars : (Text.lower (template.fieldText item)).contains '*' =
    (Text.lower (template.fieldText other)).contains '*'

theorem ReadAlike.alike (readAlike : template.ReadAlike item other) (field : Field)
    {one another : Spread}
    (read : field.spread (Text.lower (template.textsWith item field)) = .ok one)
    (readOther : field.spread (Text.lower (template.textsWith other field)) = .ok another) :
    one.Alike field another := by
  by_cases same : field = template.field
  · subst same
    rw [textsWith_field] at read readOther
    exact readAlike.spreads one another read readOther
  · rw [textsWith_of_ne same] at read readOther
    rw [read] at readOther
    cases readOther
    exact .refl field one

theorem ReadAlike.star (readAlike : template.ReadAlike item other) (field : Field) :
    (Text.lower (template.textsWith item field)).contains '*' =
      (Text.lower (template.textsWith other field)).contains '*' := by
  by_cases same : field = template.field
  · subst same
    rw [textsWith_field, textsWith_field]
    exact readAlike.stars
  · rw [textsWith_of_ne same, textsWith_of_ne same]

theorem ReadAlike.table_eq (readAlike : template.ReadAlike item other)
    (writes : template.Writes item expression) (writesOther : template.Writes other changed)
    {table otherTable : Timetable}
    (read : Timetable.ofText? (splitSeconds expression).2 = some (.ok table))
    (readOther : Timetable.ofText? (splitSeconds changed).2 = some (.ok otherTable)) :
    table = otherTable := by
  rw [writes.ofText?_eq, Option.some.injEq] at read
  rw [writesOther.ofText?_eq, Option.some.injEq] at readOther
  obtain ⟨minutes, hours, days, months, weekdays, minuteRead, hourRead, dayRead, monthRead,
    weekdayRead, _, rfl⟩ := Timetable.ofFields_eq_ok_iff.mp read
  obtain ⟨otherMinutes, otherHours, otherDays, otherMonths, otherWeekdays, otherMinuteRead,
    otherHourRead, otherDayRead, otherMonthRead, otherWeekdayRead, _, rfl⟩ :=
    Timetable.ofFields_eq_ok_iff.mp readOther
  have minute := readAlike.alike .minute minuteRead otherMinuteRead
  have hour := readAlike.alike .hour hourRead otherHourRead
  have day := readAlike.alike .dayOfMonth dayRead otherDayRead
  have month := readAlike.alike .month monthRead otherMonthRead
  have weekday := readAlike.alike .dayOfWeek weekdayRead otherWeekdayRead
  simp only [Timetable.ofSpreads, minute.values, hour.values, day.values, month.values,
    weekday.values, day.lastDay, weekday.turns, day.isOpen, weekday.isOpen,
    Timetable.isOpen_congr (readAlike.star .dayOfMonth),
    Timetable.isOpen_congr (readAlike.star .dayOfWeek)]

theorem ReadAlike.nextRuns_eq (readAlike : template.ReadAlike item other)
    (writes : template.Writes item expression) (writesOther : template.Writes other changed)
    (readable : (∃ table, Timetable.ofText? (splitSeconds expression).2 = some (.ok table)) ↔
      ∃ table, Timetable.ofText? (splitSeconds changed).2 = some (.ok table))
    (count : Int) (format : Format) (start : Moment) :
    nextRuns expression count format start = nextRuns changed count format start := by
  by_cases makesTable : ∃ table, Timetable.ofText? (splitSeconds expression).2 = some (.ok table)
  · obtain ⟨otherTable, readOther⟩ := readable.mp makesTable
    obtain ⟨table, read⟩ := makesTable
    rw [nextRuns_of_table read, nextRuns_of_table readOther, writes.five, writesOther.five,
      readAlike.table_eq writes writesOther read readOther]
  · rw [nextRuns_of_unread makesTable, nextRuns_of_unread (makesTable ∘ readable.mpr)]

/-! Valid expressions -/

theorem Writes.exists_table_iff (writes : template.Writes item expression) :
    (∃ table, Timetable.ofText? (splitSeconds expression).2 = some (.ok table)) ↔
      ∀ field : Field, field.Readable (template.textsWith item field) := by
  have words := (splitSeconds_of_five writes.five).2
  rw [Crontab.exists_table_iff (by rw [words, writes.five]), words]
  exact forall_zip_words writes

theorem Writes.noOperator_iff (writes : template.Writes item expression) :
    firstOperator? (splitSeconds expression).2 = none ↔
      ∀ field : Field, ∀ piece ∈ fieldPieces (template.textsWith item field),
        operatorOf? piece = none := by
  rw [firstOperator?, (splitSeconds_of_five writes.five).2, List.findSome?_eq_none_iff, writes]
  simp only [List.forall_mem_flatMap, List.forall_mem_map]
  exact Field.forall_mem_all

/-- What holds of the fields with one item filled in holds of them with another one if it holds of
the field of the item. -/
theorem forall_textsWith_iff (property : Field → List Char → Prop)
    (every : ∀ field, property field (template.textsWith item field)) :
    (∀ field, property field (template.textsWith other field)) ↔
      property template.field (template.fieldText other) := by
  constructor
  · intro everyOther
    exact textsWith_field template other ▸ everyOther template.field
  · intro ofField field
    by_cases same : field = template.field
    · subst same
      rwa [textsWith_field]
    · have others := every field
      rwa [textsWith_of_ne same] at others ⊢

/-- Another item in a valid expression keeps it valid if its own field passes. -/
theorem Writes.isValid_iff (writes : template.Writes item expression)
    (writesOther : template.Writes other changed) {format : Option Format}
    (valid : IsValid expression format) :
    IsValid changed format ↔
      (∀ piece ∈ fieldPieces (template.fieldText other), operatorOf? piece = none) ∧
        template.field.Readable (template.fieldText other) := by
  obtain ⟨⟨layout, _, operators⟩, made⟩ := Crontab.isValid_iff.mp valid
  have sameLayout : ∃ expected, (format <|> detectFormat changed) = some expected ∧
      (Text.words changed).length = expected.fieldCount := by
    have five : Format.five.fieldCount = 5 := rfl
    rwa [writes.five, detectFormat_of_count (writes.five.trans five.symm),
      ← detectFormat_of_count (writesOther.five.trans five.symm), ← writesOther.five] at layout
  rw [writes.noOperator_iff] at operators
  rw [writes.exists_table_iff] at made
  rw [← forall_textsWith_iff Field.Readable made,
    ← forall_textsWith_iff
      (fun _ text => ∀ piece ∈ fieldPieces text, operatorOf? piece = none) operators,
    ← writesOther.exists_table_iff, ← writesOther.noOperator_iff, Crontab.isValid_iff]
  refine and_congr_left fun _ => ⟨fun passes => passes.operators, fun operators =>
    ⟨sameLayout, fun text written => ?_, operators⟩⟩
  rw [(splitSeconds_of_five writesOther.five).1] at written
  cases written

end Template

end Recurrence.Crontab
