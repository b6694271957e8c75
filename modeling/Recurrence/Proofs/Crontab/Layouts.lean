import Recurrence.Crontab.Breakdown
import Recurrence.Proofs.Crontab.Checks
import Recurrence.Proofs.Crontab.Grammar

namespace Recurrence.Crontab

/-! The two layouts. Only the words of an expression count, not the blanks around them. A field for
the seconds in front of five others is checked before them, and has no other effect. -/

/-- Two expressions that get the same answer to every question. -/
structure Alike (one other : List Char) : Prop where
  format : detectFormat one = detectFormat other
  split : splitSeconds one = splitSeconds other
  verdict : ∀ format, validate one format = validate other format
  runs : ∀ count format start, nextRuns one count format start = nextRuns other count format start
  explanation : explainFields? one = explainFields? other

theorem alike_of_words {one other : List Char} (same : Text.words one = Text.words other) :
    Alike one other := by
  have format : detectFormat one = detectFormat other := by simp only [detectFormat, same]
  have split : splitSeconds one = splitSeconds other := by simp only [splitSeconds, same]
  have content : contentDefect? one = contentDefect? other := by simp only [contentDefect?, split]
  constructor
  · exact format
  · exact split
  · intro given
    simp only [validate, same, format, content]
  · intro count given start
    simp only [nextRuns, same, split]
  · simp only [explainFields?, same]

/-- An expression with a field for the seconds in front, beside the one without it. A number of
seconds that is too long to be read leaves the longer expression without a verdict. -/
structure SecondsInFront (seconds expression longer : List Char) : Prop where
  split : splitSeconds longer = (some seconds, Text.unwords (Text.words expression))
  refused : ∀ fault, expandField secondsBounds seconds = .error fault →
    (∀ tooLong, fault ≠ .numeralTooLong tooLong) → ∀ format ∈ [none, some .six],
    ∃ defect, validate longer format = .ok ⟨some defect, some .six⟩ ∧
      defect.message = "Invalid seconds field: ".toList ++ fault.message
  unread : ∀ tooLong, expandField secondsBounds seconds = .error (.numeralTooLong tooLong) →
    ∀ format ∈ [none, some .six], validate longer format = .error tooLong
  accepted : ∀ values, expandField secondsBounds seconds = .ok values →
    ∀ formats ∈ [(none, none), (some Format.six, some Format.five)],
    validate longer formats.1 =
      (validate expression formats.2).map ({ · with format := some .six })
  runs : ∀ count start, nextRuns longer count .six start = nextRuns expression count .five start
  explanation : explainFields? (splitSeconds longer).2 = explainFields? expression

variable {seconds expression longer : List Char}

theorem validate_of_layout (expected : Format) {format : Option Format}
    (count : (Text.words expression).length = expected.fieldCount)
    (chosen : format ∈ [none, some expected]) :
    validate expression format = (contentDefect? expression).map (⟨·, some expected⟩) := by
  have someFields : expected.fieldCount ≠ 0 := by cases expected <;> decide
  have effective : (format <|> some expected) = some expected := by
    rcases List.mem_cons.mp chosen with rfl | given
    · rfl
    · rw [List.mem_singleton.mp given]
      rfl
  simp only [validate, detectFormat_of_count count, effective, count, someFields, if_false, ne_eq,
    not_true_eq_false]

/-- Behind seconds that are accepted, the five fields are checked as if they stood alone. -/
theorem contentDefect?_of_seconds (five : (Text.words expression).length = 5)
    (words : Text.words longer = seconds :: Text.words expression) :
    contentDefect? longer = match secondsDefect? (some seconds) with
      | .ok none => contentDefect? expression
      | decided => decided := by
  have noSeconds : secondsDefect? none = .ok none := rfl
  simp only [contentDefect?, splitSeconds_of_cons words five, splitSeconds_eq_of_five five, noSeconds]
  cases secondsDefect? (some seconds) with
  | error tooLong => rfl
  | ok found => cases found <;> rfl

theorem nextRuns_of_count {format : Format} {fields : List (List Char)}
    (count : (Text.words expression).length = format.fieldCount)
    (split : (splitSeconds expression).2 = Text.unwords fields) (limit : Int) (start : Moment) :
    nextRuns expression limit format start =
      match Timetable.ofText? (Text.unwords fields) with
      | some (.ok table) => table.runs limit.toNat start
      | _ => [] := by
  have counted : nextRuns expression limit format start =
      match Timetable.ofText? (splitSeconds expression).2 with
      | some (.ok table) => table.runs limit.toNat start
      | _ => [] := if_pos count
  rw [counted, split]

theorem secondsInFront_of_words (five : (Text.words expression).length = 5)
    (words : Text.words longer = seconds :: Text.words expression) :
    SecondsInFront seconds expression longer := by
  have six : (Text.words longer).length = 6 := by rw [words, List.length_cons, five]
  have split := splitSeconds_of_cons words five
  have splitFive := splitSeconds_eq_of_five five
  have content := contentDefect?_of_seconds five words
  have verdict {format : Option Format} (chosen : format ∈ [none, some .six]) :=
    validate_of_layout .six six chosen
  constructor
  · exact split
  · intro fault refused short format chosen
    refine ⟨.seconds fault, ?_, rfl⟩
    have blamed : secondsDefect? (some seconds) = .ok (some (.seconds fault)) := by
      cases fault with
      | numeralTooLong tooLong => exact absurd rfl (short tooLong)
      | _ => simp only [secondsDefect?, refused, blame, Except.map]
    rw [verdict chosen, content, blamed]
    rfl
  · intro tooLong refused format chosen
    have unread : secondsDefect? (some seconds) = .error tooLong := by
      simp only [secondsDefect?, refused, blame, Except.map]
    rw [verdict chosen, content, unread]
    rfl
  · intro values accepted formats chosen
    have noDefect : secondsDefect? (some seconds) = .ok none := by
      simp only [secondsDefect?, accepted]
    have checked : contentDefect? longer = contentDefect? expression := by
      rw [content, noDefect]
    have sixGiven : formats.1 ∈ [none, some .six] ∧ formats.2 ∈ [none, some .five] := by
      rcases List.mem_cons.mp chosen with rfl | given
      · decide
      · rw [List.mem_singleton.mp given]
        decide
    rw [verdict sixGiven.1, validate_of_layout .five five sixGiven.2, checked]
    cases contentDefect? expression <;> rfl
  · intro count start
    rw [nextRuns_of_count six (congrArg Prod.snd split),
      nextRuns_of_count five (congrArg Prod.snd splitFive)]
  · have areWords : ∀ word ∈ Text.words expression, Text.IsWord word :=
      fun word => Text.isWord_of_mem_words
    rw [split]
    exact (alike_of_words (Text.words_unwords areWords)).explanation

/-- Whatever the blanks are, the same words get the same answers. If they are five, a field for the
seconds in front of them is all that counts beside the answers for the five. -/
theorem answers_of_isSpaced {fields : List (List Char)} (spaced : Text.IsSpaced fields expression) :
    (∀ other, Text.IsSpaced fields other → Alike expression other) ∧
      (fields.length = 5 → ∀ seconds longer, Text.IsSpaced (seconds :: fields) longer →
        SecondsInFront seconds expression longer) := by
  have words := spaced.words_eq
  constructor
  · intro other further
    exact alike_of_words (words.trans further.words_eq.symm)
  · intro five seconds longer further
    rw [← words] at five
    exact secondsInFront_of_words five (further.words_eq.trans (by rw [words]))

theorem answers_of_isSpaced_workdays :
    validate "\t 0-30/10 30  9 * *\n1-5 ".toList (some .six) =
        (validate "30 9 * * 1-5".toList (some .five)).map ({ · with format := some .six }) ∧
      ∃ defect, validate "70 30 9 * * 1-5".toList none = .ok ⟨some defect, some .six⟩ ∧
        defect.message = "Invalid seconds field: seconds value 70 out of range (0-59)".toList := by
  have spaced : Text.IsSpaced (Text.words "30 9 * * 1-5".toList) "30 9 * * 1-5".toList :=
    Text.isSpaced_words _
  have five : (Text.words "30 9 * * 1-5".toList).length = 5 := by decide
  have inFront := (answers_of_isSpaced spaced).2 five
  constructor
  · have further := inFront "0-30/10".toList "\t 0-30/10 30  9 * *\n1-5 ".toList
      (Text.isSpaced_iff.mpr (by decide))
    have read : expandField secondsBounds "0-30/10".toList = .ok [0, 10, 20, 30] := by decide
    exact further.accepted _ read _ (List.mem_cons_of_mem _ List.mem_cons_self)
  · have further := inFront "70".toList "70 30 9 * * 1-5".toList (Text.isSpaced_iff.mpr (by decide))
    have outOfRange : expandField secondsBounds "70".toList =
        .error (.valueOutOfRange secondsBounds 70) := by decide
    exact further.refused _ outOfRange nofun none List.mem_cons_self

/-- Too many digits for a number, and nothing else, are no field of any kind. -/
theorem expandField_of_longDigits {text : List Char} {bounds : Bounds}
    (digits : ∀ c ∈ text, Text.isPlainDigit c = true) (long : Text.maxDigits < text.length) :
    expandField bounds text = .error (.numeralTooLong ⟨text.length⟩) := by
  have absent {mark : Char} (noDigit : Text.isPlainDigit mark = false) : mark ∉ text := by
    intro member
    rw [digits mark member] at noDigit
    cases noDigit
  have nonempty : text ≠ [] := List.ne_nil_of_length_pos (Nat.zero_lt_of_lt long)
  have notStar : text ≠ ['*'] := by
    rintro rfl
    exact absent (show Text.isPlainDigit '*' = false by decide) List.mem_cons_self
  have unread (label : List Char) : readNumber label text = .error (.numeralTooLong ⟨text.length⟩) := by
    rw [readNumber, if_pos ⟨nonempty, List.all_eq_true.mpr digits⟩, Text.readDigits,
      if_neg (Nat.not_le.mpr long)]
  have noComma : ',' ∉ text := absent (by decide)
  have noHyphen : '-' ∉ text := absent (by decide)
  have noList : ¬ text.contains ',' := by simpa using noComma
  have noRange := Text.splitFirst?_eq_none_iff.mpr noHyphen
  rw [expandField, if_neg noList,
    expandPart_of_readStep nonempty (readStep_of_not_mem (absent (by decide))), expandBase,
    if_neg notStar]
  simp only [noRange, unread]

/-- Seconds that are refused need not get the expression a verdict. -/
theorem validate_longSeconds :
    ¬ ∀ fields seconds longer fault, fields.length = 5 → Text.IsSpaced (seconds :: fields) longer →
      expandField secondsBounds seconds = .error fault →
      ∃ defect, validate longer none = .ok ⟨some defect, some .six⟩ ∧
        defect.message = "Invalid seconds field: ".toList ++ fault.message := by
  intro refused
  have isDigit : ∀ c ∈ List.replicate 4301 '9', Text.isPlainDigit c = true := by
    intro c member
    rw [List.eq_of_mem_replicate member]
    decide
  have isWord : Text.IsWord (List.replicate 4301 '9') := by
    refine ⟨List.ne_nil_of_length_pos (by rw [List.length_replicate]; decide), fun c member => ?_⟩
    rw [List.eq_of_mem_replicate member]
    decide
  have spaced : Text.IsSpaced (List.replicate 4301 '9' :: Text.words " * * * * *".toList)
      (List.replicate 4301 '9' ++ " * * * * *".toList) :=
    .word isWord (fun c head => Option.some.inj head ▸ Text.isBlank_space) (Text.isSpaced_words _)
  have unread : expandField secondsBounds (List.replicate 4301 '9') =
      .error (.numeralTooLong ⟨(List.replicate 4301 '9').length⟩) :=
    expandField_of_longDigits isDigit (by rw [List.length_replicate]; decide)
  have five : (Text.words " * * * * *".toList).length = 5 := by decide
  obtain ⟨defect, answered, _⟩ := refused _ _ _ _ five spaced unread
  have inFront := secondsInFront_of_words five spaced.words_eq
  rw [inFront.unread _ unread none List.mem_cons_self] at answered
  cases answered

end Recurrence.Crontab
