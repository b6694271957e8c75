import Recurrence.Proofs.Crontab.Checks
import Recurrence.Proofs.Crontab.Line

namespace Recurrence.Crontab

/-! Refused expressions. Five fields that the field grammar accepts make up a timetable, so what
is refused for its fields is blamed on the leftmost one that breaks the field grammar. -/

def Field.Accepts (field : Field) (text : List Char) : Prop :=
  ∃ values, expandField field.bounds text = .ok values

theorem Field.Accepts.exists_writtenAs {field : Field} {text : List Char}
    (accepts : field.Accepts text) (isWord : Text.IsWord text) :
    ∃ parts, WrittenAs field text parts := by
  obtain ⟨values, accepted⟩ := accepts
  obtain ⟨parts, written, _⟩ := expandField_ok isWord.2 accepted
  exact ⟨parts, written⟩

/-- A fault of a field that stands behind accepted fields only. -/
def IsLeftmostFault (fields : List (List Char)) (fault : FieldFault) : Prop :=
  ∃ before field text behind, Field.all.zip fields = before ++ (field, text) :: behind ∧
    expandField field.bounds text = .error fault ∧ ∀ pair ∈ before, pair.1.Accepts pair.2

variable {fields : List (List Char)} {expression : List Char} {format : Option Format}

/-! Faults -/

def faultOf? (field : Field) (text : List Char) : Option FieldFault :=
  match expandField field.bounds text with
  | .error fault => some fault
  | .ok _ => none

theorem faultOf?_eq_some_iff {field : Field} {text : List Char} {fault : FieldFault} :
    faultOf? field text = some fault ↔ expandField field.bounds text = .error fault := by
  unfold faultOf?
  cases expandField field.bounds text <;> simp

theorem faultOf?_eq_none_iff {field : Field} {text : List Char} :
    faultOf? field text = none ↔ field.Accepts text := by
  unfold faultOf? Field.Accepts
  cases expandField field.bounds text <;> simp

instance (field : Field) (text : List Char) : Decidable (field.Accepts text) :=
  decidable_of_iff _ faultOf?_eq_none_iff

theorem firstFault?_eq_some_iff {fault : FieldFault} :
    firstFault? fields = some fault ↔ IsLeftmostFault fields fault := by
  change (Field.all.zip fields).findSome? (fun pair => faultOf? pair.1 pair.2) = some fault ↔ _
  simp only [List.findSome?_eq_some_iff, faultOf?_eq_some_iff, faultOf?_eq_none_iff, Prod.exists,
    IsLeftmostFault]

theorem firstFault?_eq_none_iff :
    firstFault? fields = none ↔ ∀ pair ∈ Field.all.zip fields, pair.1.Accepts pair.2 := by
  change (Field.all.zip fields).findSome? (fun pair => faultOf? pair.1 pair.2) = none ↔ _
  simp only [List.findSome?_eq_none_iff, faultOf?_eq_none_iff]

/-! Accepted fields -/

theorem exists_timetable_of_accepts
    (accepts : ∀ pair ∈ Field.all.zip (Text.words expression), pair.1.Accepts pair.2) :
    ∀ read, Timetable.ofText? expression = some read → ∃ table, read = .ok table := by
  intro read made
  unfold Timetable.ofText? at made
  split at made
  · rename_i minute hour day month weekday words
    have isWord : ∀ text ∈ Text.words expression, Text.IsWord text :=
      fun text => Text.isWord_of_mem_words
    simp only [words, Field.all, List.zip_cons_cons, List.forall_mem_cons] at accepts isWord
    obtain ⟨_, minuteWritten⟩ := accepts.1.exists_writtenAs isWord.1
    obtain ⟨_, hourWritten⟩ := accepts.2.1.exists_writtenAs isWord.2.1
    obtain ⟨_, dayWritten⟩ := accepts.2.2.1.exists_writtenAs isWord.2.2.1
    obtain ⟨_, monthWritten⟩ := accepts.2.2.2.1.exists_writtenAs isWord.2.2.2.1
    obtain ⟨_, weekdayWritten⟩ := accepts.2.2.2.2.1.exists_writtenAs isWord.2.2.2.2.1
    rw [Timetable.ofFields_of_writtenAs minuteWritten hourWritten dayWritten monthWritten
      weekdayWritten] at made
    exact ⟨_, (Option.some.inj made).symm⟩
  · cases made

theorem timetableDefect?_of_accepts
    (accepts : ∀ pair ∈ Field.all.zip (Text.words expression), pair.1.Accepts pair.2) :
    timetableDefect? expression = .ok none := by
  unfold timetableDefect?
  split
  · rename_i made
    obtain ⟨table, read⟩ := exists_timetable_of_accepts accepts _ made
    cases read
  · rfl

/-- A timetable that cannot be read is blamed on the leftmost fault of its fields. -/
theorem isLeftmostFault_of_timetableDefect? {defect : Defect}
    (checked : timetableDefect? expression = .ok (some defect)) :
    ∃ fault, defect = .field fault ∧ IsLeftmostFault (Text.words expression) fault := by
  cases found : firstFault? (Text.words expression) with
  | none =>
      rw [timetableDefect?_of_accepts (firstFault?_eq_none_iff.mp found)] at checked
      cases checked
  | some fault =>
      refine ⟨fault, ?_, firstFault?_eq_some_iff.mp found⟩
      unfold timetableDefect? at checked
      split at checked
      · simp only [found] at checked
        exact Option.some.inj (eq_of_blame checked)
      · cases checked

/-! Checks -/

theorem secondsDefect?_cases {seconds : Option (List Char)} {defect : Defect}
    (checked : secondsDefect? seconds = .ok (some defect)) : ∃ fault, defect = .seconds fault := by
  unfold secondsDefect? at checked
  split at checked
  · cases checked
  · split at checked
    · cases checked
    · exact ⟨_, Option.some.inj (eq_of_blame checked)⟩

theorem contentDefect?_cases {defect : Defect}
    (checked : contentDefect? expression = .ok (some defect)) :
    (∃ fault, defect = .seconds fault) ∨ (∃ symbol, defect = .operator symbol) ∨
      ∃ fault, defect = .field fault ∧
        IsLeftmostFault (Text.words (splitSeconds expression).2) fault := by
  simp only [contentDefect?] at checked
  cases seconds : secondsDefect? (splitSeconds expression).1 with
  | error tooLong => simp [seconds] at checked
  | ok ofSeconds =>
      cases ofSeconds with
      | some ofSeconds =>
          simp only [seconds, Except.ok.injEq, Option.some.injEq] at checked
          exact Or.inl (secondsDefect?_cases (checked ▸ seconds))
      | none =>
          cases operator : firstOperator? (splitSeconds expression).2 with
          | some symbol =>
              simp only [seconds, operator, Except.ok.injEq, Option.some.injEq] at checked
              exact Or.inr (Or.inl ⟨symbol, checked.symm⟩)
          | none =>
              simp only [seconds, operator] at checked
              exact Or.inr (Or.inr (isLeftmostFault_of_timetableDefect? checked))

/-- What is found behind the check of the layout is found by the check of the content. -/
theorem contentDefect?_of_validate {defect : Defect} {found : Option Format}
    (checked : validate expression format = .ok ⟨some defect, found⟩) :
    (defect = .empty ∨ (∃ count, defect = .fieldCount count) ∨
        ∃ expected count, defect = .layout expected count) ∨
      contentDefect? expression = .ok (some defect) := by
  simp only [validate] at checked
  split at checked
  · cases checked
    exact Or.inl (Or.inl rfl)
  · split at checked
    · cases checked
      exact Or.inl (Or.inr (Or.inl ⟨_, rfl⟩))
    · split at checked
      · cases checked
        exact Or.inl (Or.inr (Or.inr ⟨_, _, rfl⟩))
      · refine Or.inr ?_
        cases content : contentDefect? expression with
        | error tooLong => simp [content, Except.map] at checked
        | ok inContent => simp_all [Except.map]

theorem timetableDefect?_of_contentDefect? {fault : FieldFault}
    (checked : contentDefect? expression = .ok (some (.field fault))) :
    firstOperator? (splitSeconds expression).2 = none ∧
      timetableDefect? (splitSeconds expression).2 = .ok (some (.field fault)) := by
  simp only [contentDefect?] at checked
  cases seconds : secondsDefect? (splitSeconds expression).1 with
  | error tooLong => simp [seconds] at checked
  | ok ofSeconds =>
      cases ofSeconds with
      | some ofSeconds =>
          obtain ⟨inSeconds, rfl⟩ := secondsDefect?_cases seconds
          simp [seconds] at checked
      | none =>
          cases operator : firstOperator? (splitSeconds expression).2 with
          | some symbol => simp [seconds, operator] at checked
          | none =>
              simp only [seconds, operator] at checked
              exact ⟨rfl, checked⟩

theorem not_exists_table_of_timetableDefect? {defect : Defect}
    (checked : timetableDefect? expression = .ok (some defect)) :
    ¬ ∃ table, Timetable.ofText? expression = some (.ok table) := by
  intro made
  obtain ⟨table, read⟩ := made
  rw [timetableDefect?, read] at checked
  cases checked

/-- Every complaint comes from the checks of the layout, of the seconds or of operators, or
else from the field grammar; the timetable's own complaint is never given. -/
theorem defect_ne_timetable {verdict : Verdict}
    (checked : Crontab.validate expression format = .ok verdict) (unreadable : Unreadable) :
    verdict.defect ≠ some (.timetable unreadable) := by
  intro complained
  obtain ⟨defect, found⟩ := verdict
  subst complained
  obtain (early | ⟨_, early⟩ | ⟨_, _, early⟩) | content := contentDefect?_of_validate checked
  · cases early
  · cases early
  · cases early
  · rcases contentDefect?_cases content with ⟨_, same⟩ | ⟨_, same⟩ | ⟨_, same, _⟩
    all_goals cases same

/-- Five fields of the field grammar are accepted. So an expression that is refused after the
checks of its layout, its seconds and of operators gets the complaint of the field grammar about
the leftmost field that it refuses, and no expression gets that of the timetable. -/
theorem validate_fieldGrammar (expression : List Char) (format : Option Format) :
    ((Text.words expression).length = 5 → format ≠ some .six →
        (∀ pair ∈ Field.all.zip (Text.words expression), pair.1.Accepts pair.2) →
        validate expression format = .ok ⟨none, some .five⟩) ∧
      ∀ verdict, validate expression format = .ok verdict →
        (PassesFirstChecks expression format → verdict.valid = false →
          ∃ fault, IsLeftmostFault (Text.words (splitSeconds expression).2) fault ∧
            verdict.defect.map Defect.message = some fault.message) ∧
        ∀ unreadable, verdict.defect ≠ some (.timetable unreadable) := by
  refine ⟨fun count notSix accepts => ?_, fun verdict checked =>
    ⟨fun passes invalid => ?_, defect_ne_timetable checked⟩⟩
  · obtain ⟨noSeconds, words⟩ := splitSeconds_of_five count
    have detected : detectFormat expression = some .five := by simp only [detectFormat, count]
    have operators : firstOperator? (splitSeconds expression).2 = none := by
      refine firstOperator?_of_writtenAs fun text member => ?_
      rw [words, ← List.map_snd_zip (le_of_eq count : _ ≤ Field.all.length)] at member
      obtain ⟨⟨field, text⟩, paired, rfl⟩ := List.mem_map.mp member
      have isWord := Text.isWord_of_mem_words (List.of_mem_zip paired).2
      exact ⟨field, (accepts _ paired).exists_writtenAs isWord⟩
    have passes : PassesFirstChecks expression format := by
      refine ⟨⟨.five, ?_, count⟩, fun text written => ?_, operators⟩
      · rw [detected]
        cases format with
        | none => rfl
        | some expected =>
            cases expected with
            | five => rfl
            | six => exact absurd rfl notSix
      · rw [noSeconds] at written
        cases written
    rw [passes.validate, timetableDefect?_of_accepts (words ▸ accepts), detected]
    rfl
  · rw [passes.validate] at checked
    cases content : timetableDefect? (splitSeconds expression).2 with
    | error tooLong => simp [content, Except.map] at checked
    | ok found =>
        simp only [content, Except.map, Except.ok.injEq] at checked
        subst checked
        cases found with
        | none => cases invalid
        | some defect =>
            obtain ⟨fault, rfl, leftmost⟩ := isLeftmostFault_of_timetableDefect? content
            exact ⟨fault, leftmost, rfl⟩

theorem validate_fieldGrammar_wrappedMinutes :
    validate "0,30 9-17/2 1-31 007 5-5".toList none = .ok ⟨none, some .five⟩ ∧
      ∃ verdict, validate "5-1 24 * * *".toList none = .ok verdict ∧ verdict.valid = false ∧
        (∃ fault, IsLeftmostFault (Text.words (splitSeconds "5-1 24 * * *".toList).2) fault ∧
          verdict.defect.map Defect.message = some fault.message) ∧
        ∀ unreadable, verdict.defect ≠ some (.timetable unreadable) := by
  have passes : PassesFirstChecks "5-1 24 * * *".toList none := by
    refine ⟨⟨.five, by decide, by decide⟩, fun text written => ?_,
      by decide⟩
    rw [(splitSeconds_of_five (by decide)).1] at written
    cases written
  have refused : ∃ verdict, validate "5-1 24 * * *".toList none = .ok verdict ∧
      verdict.valid = false :=
    ⟨⟨some (.field (.rangeOutOfBounds Field.minute.bounds "5-1".toList)), some .five⟩,
      by decide, by decide⟩
  obtain ⟨verdict, checked, invalid⟩ := refused
  have blamed := (validate_fieldGrammar "5-1 24 * * *".toList none).2 verdict checked
  exact ⟨(validate_fieldGrammar _ none).1 (by decide) (by decide) (by decide),
    verdict, checked, invalid, blamed.1 passes invalid, blamed.2⟩

end Recurrence.Crontab
