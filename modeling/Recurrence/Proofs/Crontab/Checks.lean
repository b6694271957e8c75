import Recurrence.Crontab.Validation
import Recurrence.Proofs.Crontab.Timetable
import Recurrence.Proofs.Text.Words

namespace Recurrence.Crontab

/-! The checks of an expression. An expression is valid if it passes the checks of its layout, its
seconds and of operators, and its five fields make up a timetable. -/

/-- What is checked before the five fields are: their number, the seconds and the operators. -/
structure PassesFirstChecks (expression : List Char) (format : Option Format) : Prop where
  layout : ∃ expected, (format <|> detectFormat expression) = some expected ∧
    (Text.words expression).length = expected.fieldCount
  seconds : ∀ text ∈ (splitSeconds expression).1, ∃ values, expandField secondsBounds text = .ok values
  operators : firstOperator? (splitSeconds expression).2 = none

def IsValid (expression : List Char) (format : Option Format) : Prop :=
  (validate expression format).map Verdict.valid = .ok true

instance (expression : List Char) (format : Option Format) : Decidable (IsValid expression format) :=
  inferInstanceAs (Decidable (_ = _))

variable {expression : List Char}

/-- Where the blame is taken, it is for the fault itself. -/
theorem eq_of_blame {defectOf : FieldFault → Defect} {fault : FieldFault} {found : Option Defect}
    (blamed : (blame defectOf fault).map some = .ok found) : found = some (defectOf fault) := by
  cases fault with
  | numeralTooLong tooLong => cases blamed
  | _ => exact (Except.ok.inj blamed).symm

theorem exists_table_of_noDefect (checked : timetableDefect? expression = .ok none)
    (five : (Text.words expression).length = 5) :
    ∃ table, Timetable.ofText? expression = some (.ok table) := by
  unfold timetableDefect? at checked
  split at checked
  · split at checked
    · cases eq_of_blame checked
    · cases checked
  · rename_i readable
    match fields : Text.words expression, five with
    | [minute, hour, day, month, weekday], _ =>
        rw [Timetable.ofText?, fields] at readable ⊢
        cases read : Timetable.ofFields minute hour day month weekday with
        | ok table => exact ⟨table, congrArg some read⟩
        | error unreadable => exact absurd (congrArg some read) (readable unreadable)

theorem detectFormat_of_count {expected : Format}
    (count : (Text.words expression).length = expected.fieldCount) :
    detectFormat expression = some expected := by
  rw [detectFormat, count]
  cases expected <;> rfl

theorem splitSeconds_eq_of_five (five : (Text.words expression).length = 5) :
    splitSeconds expression = (none, Text.unwords (Text.words expression)) := by
  unfold splitSeconds
  match Text.words expression, five with
  | [_, _, _, _, _], _ => rfl

theorem splitSeconds_of_five (count : (Text.words expression).length = 5) :
    (splitSeconds expression).1 = none ∧
      Text.words (splitSeconds expression).2 = Text.words expression := by
  rw [splitSeconds_eq_of_five count]
  exact ⟨rfl, Text.words_unwords fun word => Text.isWord_of_mem_words⟩

theorem splitSeconds_of_cons {seconds : List Char} {fields : List (List Char)}
    (words : Text.words expression = seconds :: fields) (five : fields.length = 5) :
    splitSeconds expression = (some seconds, Text.unwords fields) := by
  rw [splitSeconds, words]
  match fields, five with
  | [_, _, _, _, _], _ => rfl

theorem words_splitSeconds_length {expected : Format}
    (count : (Text.words expression).length = expected.fieldCount) :
    (Text.words (splitSeconds expression).2).length = 5 := by
  cases expected with
  | five => rw [(splitSeconds_of_five count).2, count, Format.fieldCount]
  | six =>
      obtain ⟨seconds, fields, words⟩ := List.exists_cons_of_length_eq_add_one count
      rw [words, List.length_cons] at count
      have five : fields.length = 5 := Nat.succ.inj count
      have areWords : ∀ word ∈ fields, Text.IsWord word :=
        fun word member => Text.isWord_of_mem_words (words ▸ List.mem_cons_of_mem _ member)
      rw [splitSeconds_of_cons words five, Text.words_unwords areWords, five]

theorem noSecondsDefect_iff {seconds : Option (List Char)} :
    secondsDefect? seconds = .ok none ↔
      ∀ text ∈ seconds, ∃ values, expandField secondsBounds text = .ok values := by
  cases seconds with
  | none => simp [secondsDefect?]
  | some text =>
      cases expanded : expandField secondsBounds text with
      | ok values => simp [secondsDefect?, expanded]
      | error fault =>
          refine iff_of_false (fun checked => ?_) (by simp [expanded])
          simp only [secondsDefect?, expanded] at checked
          cases eq_of_blame checked

theorem PassesFirstChecks.validate {format : Option Format}
    (passes : PassesFirstChecks expression format) :
    validate expression format = (timetableDefect? (splitSeconds expression).2).map
      (⟨·, detectFormat expression⟩) := by
  obtain ⟨⟨expected, chosen, count⟩, seconds, operators⟩ := passes
  have someFields : expected.fieldCount ≠ 0 := by cases expected <;> decide
  simp only [Crontab.validate, chosen, count, someFields, if_false, ne_eq, not_true_eq_false,
    contentDefect?, noSecondsDefect_iff.mpr seconds, operators]

theorem noDefect_of_contentDefect? (checked : contentDefect? expression = .ok none)
    (five : (Text.words (splitSeconds expression).2).length = 5) :
    (∀ text ∈ (splitSeconds expression).1,
        ∃ values, expandField secondsBounds text = .ok values) ∧
      firstOperator? (splitSeconds expression).2 = none ∧
      ∃ table, Timetable.ofText? (splitSeconds expression).2 = some (.ok table) := by
  simp only [contentDefect?] at checked
  cases seconds : secondsDefect? (splitSeconds expression).1 with
  | error tooLong => simp [seconds] at checked
  | ok ofSeconds =>
      cases ofSeconds with
      | some defect => simp [seconds] at checked
      | none =>
          cases operator : firstOperator? (splitSeconds expression).2 with
          | some symbol => simp [seconds, operator] at checked
          | none =>
              simp only [seconds, operator] at checked
              exact ⟨noSecondsDefect_iff.mp seconds, rfl, exists_table_of_noDefect checked five⟩

/-- An expression is valid if it passes the first checks and its fields make up a timetable. -/
theorem isValid_iff {format : Option Format} :
    IsValid expression format ↔ PassesFirstChecks expression format ∧
      ∃ table, Timetable.ofText? (splitSeconds expression).2 = some (.ok table) := by
  constructor
  · intro valid
    simp only [IsValid, Crontab.validate] at valid
    split at valid
    · cases valid
    · split at valid
      · cases valid
      · rename_i expected chosen
        split at valid
        · cases valid
        · rename_i count
          rw [not_ne_iff] at count
          have noDefect : contentDefect? expression = .ok none := by
            cases content : contentDefect? expression with
            | error tooLong => simp [content, Except.map] at valid
            | ok found => cases found <;> simp [content, Except.map, Verdict.valid] at valid ⊢
          obtain ⟨seconds, operators, table, read⟩ := noDefect_of_contentDefect? noDefect
            (words_splitSeconds_length count)
          exact ⟨⟨⟨expected, chosen, count⟩, seconds, operators⟩, table, read⟩
  · intro checked
    obtain ⟨passes, table, read⟩ := checked
    rw [IsValid, passes.validate, timetableDefect?, read]
    rfl

/-! Words -/

variable {fields : List (List Char)}

theorem splitSeconds_unwords (areWords : ∀ word ∈ fields, Text.IsWord word)
    (five : fields.length = 5) : splitSeconds (Text.unwords fields) = (none, Text.unwords fields) := by
  have words := Text.words_unwords areWords
  rw [splitSeconds_eq_of_five (by rw [words, five]), words]

theorem splitSeconds_unwords_cons {seconds : List Char}
    (areWords : ∀ word ∈ seconds :: fields, Text.IsWord word) (five : fields.length = 5) :
    splitSeconds (Text.unwords (seconds :: fields)) = (some seconds, Text.unwords fields) :=
  splitSeconds_of_cons (Text.words_unwords areWords) five

theorem isValid_unwords_iff (areWords : ∀ word ∈ fields, Text.IsWord word)
    (five : fields.length = 5) :
    IsValid (Text.unwords fields) none ↔ firstOperator? (Text.unwords fields) = none ∧
      ∃ table, Timetable.ofText? (Text.unwords fields) = some (.ok table) := by
  have split := splitSeconds_unwords areWords five
  rw [isValid_iff, split]
  refine and_congr_left fun _ => ⟨fun passes => ?_, fun operators => ?_⟩
  · have operators := passes.operators
    rwa [split] at operators
  · have count : (Text.words (Text.unwords fields)).length = 5 := by
      rw [Text.words_unwords areWords, five]
    refine ⟨⟨.five, detectFormat_of_count count, count⟩, fun text written => ?_,
      split.symm ▸ operators⟩
    rw [split] at written
    cases written

/-- A field for the seconds in front of five fields is checked on its own. -/
theorem isValid_unwords_cons_iff {seconds : List Char}
    (areWords : ∀ word ∈ seconds :: fields, Text.IsWord word) (five : fields.length = 5) :
    IsValid (Text.unwords (seconds :: fields)) none ↔
      (∃ values, expandField secondsBounds seconds = .ok values) ∧
        IsValid (Text.unwords fields) none := by
  have split := splitSeconds_unwords_cons areWords five
  rw [isValid_unwords_iff (fun word member => areWords word (List.mem_cons_of_mem _ member)) five,
    isValid_iff, split, ← and_assoc]
  refine and_congr_left fun _ => ⟨fun passes => ?_, fun checked => ?_⟩
  · obtain ⟨_, secondsRead, operators⟩ := passes
    rw [split] at secondsRead operators
    exact ⟨secondsRead seconds rfl, operators⟩
  · have count : (Text.words (Text.unwords (seconds :: fields))).length = 6 := by
      rw [Text.words_unwords areWords, List.length_cons, five]
    refine ⟨⟨.six, detectFormat_of_count count, count⟩, fun text written => ?_,
      split.symm ▸ checked.2⟩
    rw [split] at written
    cases written
    exact checked.1

end Recurrence.Crontab
