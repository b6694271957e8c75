import Recurrence.Proofs.Crontab.Faults
import Recurrence.Proofs.Crontab.Layouts
import Recurrence.Proofs.Crontab.Refusal

namespace Recurrence.Crontab

/-! Verdicts. Every expression gets one, unless the check comes upon a number that is too long to be
read before it is decided. What a verdict says goes together. -/

variable {expression text : List Char} {format : Option Format} {tooLong : Text.NumeralTooLong}

/-! Long numbers -/

/-- Texts with a run of more digits than are read of a number. -/
def HasLongNumeral (text : List Char) : Prop :=
  ∃ digits, digits <:+: text ∧ (∀ c ∈ digits, Text.isPlainDigit c = true) ∧
    Text.maxDigits < digits.length

theorem FieldFault.IsIn.hasLongNumeral {bounds : Bounds}
    (isIn : FieldFault.IsIn bounds text (.numeralTooLong tooLong)) : HasLongNumeral text := by
  cases isIn with
  | numeralTooLong within areDigits tooMany => exact ⟨_, within, areDigits, tooMany⟩

theorem IsLeftmostFault.exists_word {fault : FieldFault}
    (leftmost : IsLeftmostFault (Text.words expression) fault) :
    ∃ field : Field, ∃ text ∈ Text.words expression, fault.IsIn field.bounds text := by
  obtain ⟨before, field, text, behind, fields, refused, _⟩ := leftmost
  have placed : (field, text) ∈ Field.all.zip (Text.words expression) := by
    rw [fields]
    exact List.mem_append_right _ List.mem_cons_self
  exact ⟨field, text, (List.of_mem_zip placed).2, isIn_of_expandField refused⟩

/-! Checks without a verdict -/

/-- What leaves an expression without a verdict: in its layout, the seconds or, where no other check
decides, the leftmost fault of its fields is a number that is too long. -/
inductive EndsAtNumber (expression : List Char) (format : Option Format)
    (tooLong : Text.NumeralTooLong) : Prop
  | seconds {text : List Char} (layout : ∃ expected, (format <|> detectFormat expression) =
      some expected ∧ (Text.words expression).length = expected.fieldCount)
      (written : (splitSeconds expression).1 = some text)
      (fault : expandField secondsBounds text = .error (.numeralTooLong tooLong)) :
      EndsAtNumber expression format tooLong
  | fields {unreadable : Unreadable} (passes : PassesFirstChecks expression format)
      (refused : Timetable.ofText? (splitSeconds expression).2 = some (.error unreadable))
      (fault : IsLeftmostFault (Text.words (splitSeconds expression).2) (.numeralTooLong tooLong)) :
      EndsAtNumber expression format tooLong

theorem map_blame_eq_error_iff {defectOf : FieldFault → Defect} {fault : FieldFault} :
    (blame defectOf fault).map some = .error tooLong ↔ fault = .numeralTooLong tooLong := by
  cases fault <;> simp [blame, Except.map]

theorem secondsDefect?_eq_error_iff {seconds : Option (List Char)} :
    secondsDefect? seconds = .error tooLong ↔
      ∃ text, seconds = some text ∧
        expandField secondsBounds text = .error (.numeralTooLong tooLong) := by
  cases seconds with
  | none => simp [secondsDefect?]
  | some text =>
      cases expanded : expandField secondsBounds text with
      | ok values => simp [secondsDefect?, expanded]
      | error fault => simp [secondsDefect?, expanded, map_blame_eq_error_iff]

theorem timetableDefect?_eq_error_iff :
    timetableDefect? expression = .error tooLong ↔
      (∃ unreadable, Timetable.ofText? expression = some (.error unreadable)) ∧
        IsLeftmostFault (Text.words expression) (.numeralTooLong tooLong) := by
  rw [← firstFault?_eq_some_iff]
  unfold timetableDefect?
  split
  · rename_i unreadable refused
    cases found : firstFault? (Text.words expression) with
    | none => simp
    | some fault => simp [map_blame_eq_error_iff, refused]
  · rename_i readable
    exact iff_of_false (by simp) fun both => both.1.elim readable

theorem contentDefect?_eq_error_iff :
    contentDefect? expression = .error tooLong ↔
      secondsDefect? (splitSeconds expression).1 = .error tooLong ∨
        secondsDefect? (splitSeconds expression).1 = .ok none ∧
          firstOperator? (splitSeconds expression).2 = none ∧
          timetableDefect? (splitSeconds expression).2 = .error tooLong := by
  simp only [contentDefect?]
  cases seconds : secondsDefect? (splitSeconds expression).1 with
  | error found => simp
  | ok found =>
      cases found with
      | some defect => simp
      | none => cases operator : firstOperator? (splitSeconds expression).2 <;> simp

theorem validate_of_fieldCount {expected : Format}
    (chosen : (format <|> detectFormat expression) = some expected)
    (count : (Text.words expression).length = expected.fieldCount) :
    validate expression format =
      (contentDefect? expression).map (⟨·, detectFormat expression⟩) := by
  have someFields : expected.fieldCount ≠ 0 := by cases expected <;> decide
  simp only [validate, chosen, count, someFields, if_false, ne_eq, not_true_eq_false]

theorem map_eq_error_iff {result : Except ε α} {f : α → β} {fault : ε} :
    result.map f = .error fault ↔ result = .error fault := by
  cases result <;> simp [Except.map]

/-- An expression is left without a verdict exactly if its check ends at a long number. -/
theorem validate_eq_error_iff :
    validate expression format = .error tooLong ↔ EndsAtNumber expression format tooLong := by
  by_cases layout : ∃ expected, (format <|> detectFormat expression) = some expected ∧
      (Text.words expression).length = expected.fieldCount
  · obtain ⟨expected, chosen, count⟩ := layout
    rw [validate_of_fieldCount chosen count, map_eq_error_iff, contentDefect?_eq_error_iff,
      secondsDefect?_eq_error_iff, timetableDefect?_eq_error_iff, noSecondsDefect_iff]
    constructor
    · rintro (⟨text, written, fault⟩ | ⟨seconds, operators, ⟨unreadable, refused⟩, fault⟩)
      · exact .seconds ⟨expected, chosen, count⟩ written fault
      · exact .fields ⟨⟨expected, chosen, count⟩, seconds, operators⟩ refused fault
    · intro ends
      cases ends with
      | seconds _ written fault => exact Or.inl ⟨_, written, fault⟩
      | fields passes refused fault =>
          exact Or.inr ⟨passes.seconds, passes.operators, ⟨_, refused⟩, fault⟩
  · refine iff_of_false (fun unread => ?_) fun ends => ?_
    · simp only [validate] at unread
      split at unread
      · cases unread
      · split at unread
        · cases unread
        · rename_i expected chosen
          split at unread
          · cases unread
          · rename_i count
            exact layout ⟨expected, chosen, not_ne_iff.mp count⟩
    · cases ends with
      | seconds fits => exact layout fits
      | fields passes => exact layout passes.layout

theorem mem_words_of_splitSeconds {word : List Char}
    (written : (splitSeconds expression).1 = some word ∨
      word ∈ Text.words (splitSeconds expression).2) : word ∈ Text.words expression := by
  have areWords : ∀ word ∈ Text.words expression, Text.IsWord word :=
    fun word => Text.isWord_of_mem_words
  unfold splitSeconds at written
  split at written
  · rename_i first minute hour day month weekday words
    rw [words] at areWords ⊢
    have areOthers := fun word member => areWords word (List.mem_cons_of_mem _ member)
    rw [Text.words_unwords areOthers] at written
    rcases written with same | member
    · exact Option.some.inj same ▸ List.mem_cons_self
    · exact List.mem_cons_of_mem _ member
  · rw [Text.words_unwords areWords] at written
    rcases written with same | member
    · cases same
    · exact member

theorem EndsAtNumber.hasLongNumeral (ends : EndsAtNumber expression format tooLong) :
    ∃ word ∈ Text.words expression, HasLongNumeral word := by
  cases ends with
  | seconds layout written fault =>
      exact ⟨_, mem_words_of_splitSeconds (Or.inl written),
        (isIn_of_expandField fault).hasLongNumeral⟩
  | fields passes refused leftmost =>
      obtain ⟨field, text, word, isIn⟩ := leftmost.exists_word
      exact ⟨text, mem_words_of_splitSeconds (Or.inr word), isIn.hasLongNumeral⟩

/-! Complaints -/

/-- What may be wrong with an expression. Whatever a defect quotes stands in one of its words. -/
inductive Defect.IsIn (expression : List Char) : Defect → Prop
  | empty : IsIn expression .empty
  | fieldCount (found : Nat) : IsIn expression (.fieldCount found)
  | layout (expected : Format) (found : Nat) : IsIn expression (.layout expected found)
  | seconds {text : List Char} {fault : FieldFault} (word : text ∈ Text.words expression)
      (isIn : fault.IsIn secondsBounds text) : IsIn expression (.seconds fault)
  | operator {symbol : Char} (known : symbol ∈ ['L', 'W', '?', '#']) :
      IsIn expression (.operator symbol)
  | field {field : Field} {text : List Char} {fault : FieldFault}
      (word : text ∈ Text.words expression) (isIn : fault.IsIn field.bounds text) :
      IsIn expression (.field fault)

theorem operatorOf?_mem {piece : List Char} {symbol : Char}
    (found : operatorOf? piece = some symbol) : symbol ∈ ['L', 'W', '?', '#'] := by
  unfold operatorOf? at found
  simp only at found
  repeat' split at found
  all_goals cases found
  all_goals decide

theorem firstOperator?_mem {symbol : Char} (found : firstOperator? text = some symbol) :
    symbol ∈ ['L', 'W', '?', '#'] := by
  obtain ⟨piece, _, inPiece⟩ := List.exists_of_findSome?_eq_some found
  exact operatorOf?_mem inPiece

theorem exists_fault_of_secondsDefect? {seconds : Option (List Char)} {defect : Defect}
    (checked : secondsDefect? seconds = .ok (some defect)) :
    ∃ text fault, seconds = some text ∧ expandField secondsBounds text = .error fault ∧
      defect = .seconds fault := by
  cases seconds with
  | none => cases checked
  | some text =>
      cases expanded : expandField secondsBounds text with
      | ok values => simp [secondsDefect?, expanded] at checked
      | error fault =>
          simp only [secondsDefect?, expanded] at checked
          exact ⟨text, fault, rfl, expanded, Option.some.inj (eq_of_blame checked)⟩

theorem isIn_of_contentDefect? {defect : Defect}
    (checked : contentDefect? expression = .ok (some defect)) : defect.IsIn expression := by
  simp only [contentDefect?] at checked
  cases seconds : secondsDefect? (splitSeconds expression).1 with
  | error tooLong => simp [seconds] at checked
  | ok ofSeconds =>
      cases ofSeconds with
      | some inSeconds =>
          simp only [seconds, Except.ok.injEq, Option.some.injEq] at checked
          subst checked
          obtain ⟨text, fault, written, refused, rfl⟩ := exists_fault_of_secondsDefect? seconds
          exact .seconds (mem_words_of_splitSeconds (Or.inl written))
            (isIn_of_expandField refused)
      | none =>
          cases operator : firstOperator? (splitSeconds expression).2 with
          | some symbol =>
              simp only [seconds, operator, Except.ok.injEq, Option.some.injEq] at checked
              subst checked
              exact .operator (firstOperator?_mem operator)
          | none =>
              simp only [seconds, operator] at checked
              obtain ⟨fault, rfl, leftmost⟩ := isLeftmostFault_of_timetableDefect? checked
              obtain ⟨field, text, word, isIn⟩ := leftmost.exists_word
              exact .field (mem_words_of_splitSeconds (Or.inr word)) isIn

/-- Every complaint is about something that stands in the expression. -/
theorem isIn_of_validate {defect : Defect} {found : Option Format}
    (checked : validate expression format = .ok ⟨some defect, found⟩) :
    defect.IsIn expression := by
  rcases contentDefect?_of_validate checked with
    (rfl | ⟨count, rfl⟩ | ⟨expected, count, rfl⟩) | content
  · exact .empty
  · exact .fieldCount count
  · exact .layout expected count
  · exact isIn_of_contentDefect? content

/-! The shortest number that is too long, as the seconds of an expression -/

def longNumber : List Char := List.replicate 4301 '9'

def longSeconds : List Char := longNumber ++ " * * * * *".toList

theorem length_longNumber : longNumber.length = 4301 := List.length_replicate

theorem mem_longNumber {c : Char} (member : c ∈ longNumber) : c = '9' :=
  List.eq_of_mem_replicate member

theorem longNumber_isWord : Text.IsWord longNumber := by
  refine ⟨List.ne_nil_of_length_pos (by rw [length_longNumber]; decide), fun c member => ?_⟩
  rw [mem_longNumber member]
  decide

theorem words_longSeconds :
    Text.words longSeconds = longNumber :: Text.words "* * * * *".toList :=
  Text.words_word_append longNumber_isWord Text.isBlank_space _

theorem longSeconds_endsAtNumber : EndsAtNumber longSeconds none ⟨4301⟩ := by
  have count : (Text.words longSeconds).length = Format.six.fieldCount := by
    rw [words_longSeconds]
    decide
  have chosen : (none <|> detectFormat longSeconds) = some .six := by
    rw [detectFormat_of_count count]
    rfl
  have isDigit : ∀ c ∈ longNumber, Text.isPlainDigit c = true := by
    intro c member
    rw [mem_longNumber member]
    decide
  have unread : expandField secondsBounds longNumber = .error (.numeralTooLong ⟨4301⟩) := by
    rw [expandField_of_longDigits isDigit (by rw [length_longNumber]; decide), length_longNumber]
  have written : (splitSeconds longSeconds).1 = some longNumber := by
    rw [splitSeconds_of_cons words_longSeconds (by decide)]
  exact .seconds ⟨.six, chosen, count⟩ written unread

/-! Answers -/

theorem format_of_validate {verdict : Verdict}
    (checked : validate expression format = .ok verdict) :
    verdict.format = detectFormat expression := by
  simp only [validate] at checked
  split at checked
  · rename_i empty
    cases checked
    simp only [detectFormat, empty]
  · split at checked
    · rename_i undetected
      cases checked
      rw [Option.orElse_eq_orElse, Option.orElse_eq_or, Option.or_eq_none_iff] at undetected
      exact undetected.2.symm
    · split at checked
      · cases checked
        rfl
      · cases content : contentDefect? expression with
        | error tooLong => simp [content, Except.map] at checked
        | ok found =>
            rw [content] at checked
            cases checked
            rfl

theorem isValid_of_validate {verdict : Verdict}
    (checked : validate expression format = .ok verdict) :
    IsValid expression format ↔ verdict.valid = true := by
  rw [IsValid, checked]
  simp [Except.map]

theorem format_of_isValid (valid : IsValid expression format) :
    ∃ found, detectFormat expression = some found ∧ ∀ given ∈ format, given = found := by
  obtain ⟨expected, chosen, count⟩ := (isValid_iff.mp valid).1.layout
  refine ⟨expected, detectFormat_of_count count, fun given asked => ?_⟩
  rw [Option.mem_def.mp asked] at chosen
  exact Option.some.inj chosen

/-- Every expression gets a verdict unless its check ends at a number that is too long, which one of
its words then holds. A verdict is valid exactly if it has no complaint, it tells the layout that is
found whatever was asked for, and if it is valid, then that is the layout that was asked for. -/
theorem validate_coherent (expression : List Char) (format : Option Format) :
    ((∃ verdict, validate expression format = .ok verdict) ↔
        ¬ ∃ tooLong, EndsAtNumber expression format tooLong) ∧
      (∀ tooLong, EndsAtNumber expression format tooLong →
        validate expression format = .error tooLong ∧
          ∃ word ∈ Text.words expression, HasLongNumeral word) ∧
      ∀ verdict, validate expression format = .ok verdict →
        (verdict.valid = true ↔ verdict.defect.map Defect.message = none) ∧
        verdict.format = detectFormat expression ∧
        (verdict.valid = true →
          ∃ found, verdict.format = some found ∧ ∀ given ∈ format, given = found) := by
  refine ⟨?_, fun tooLong ends => ⟨validate_eq_error_iff.mpr ends, ends.hasLongNumeral⟩,
    fun verdict checked => ⟨?_, format_of_validate checked, fun valid => ?_⟩⟩
  · simp only [← validate_eq_error_iff]
    cases validate expression format <;> simp
  · rw [Option.map_eq_none_iff]
    exact Option.isNone_iff_eq_none
  · rw [format_of_validate checked]
    exact format_of_isValid ((isValid_of_validate checked).mpr valid)

theorem validate_coherent_mondays :
    validate longSeconds none = .error ⟨4301⟩ ∧
      ∃ found, detectFormat "*/15 0 9 * * mon#2".toList = some found ∧
        ∀ given ∈ some Format.six, given = found := by
  refine ⟨((validate_coherent longSeconds none).2.1 _ longSeconds_endsAtNumber).1, ?_⟩
  have checked : validate "*/15 0 9 * * mon#2".toList (some .six) = .ok ⟨none, some .six⟩ := by
    decide
  obtain ⟨_, format, asked⟩ := (validate_coherent _ _).2.2 _ checked
  exact format ▸ asked rfl

theorem longSeconds_no_verdict : ¬ ∀ expression format, ∃ verdict,
    validate expression format = .ok verdict := by
  intro answered
  obtain ⟨verdict, checked⟩ := answered longSeconds none
  rw [validate_eq_error_iff.mpr longSeconds_endsAtNumber] at checked
  cases checked

end Recurrence.Crontab
