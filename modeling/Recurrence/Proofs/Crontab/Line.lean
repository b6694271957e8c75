import Recurrence.Crontab.Breakdown
import Recurrence.Crontab.Line
import Recurrence.Crontab.Validation
import Recurrence.Proofs.Crontab.Spread
import Recurrence.Proofs.Text.Classes
import Recurrence.Proofs.Text.Numerals

namespace Recurrence.Crontab

/-! Schedules whose terms fit their fields are well-formed, as texts of five fields and with
a leading field for the seconds. -/

/-! Terms -/

namespace Term

def parts : Term → List Part
  | .any => [.star]
  | .every step => [.starStep step.toNat]
  | .only values => values.map fun value => .single value.toNat
  | .span first last => [.range first.toNat last.toNat]

/-- A term fits a field if it names values of the field, and at least one. -/
def Fits (field : Field) : Term → Prop
  | .any => True
  | .every step => 1 ≤ step ∧ step ≤ field.greatest
  | .only values => values ≠ [] ∧ ∀ value ∈ values, field.least ≤ value ∧ value ≤ field.greatest
  | .span first last => field.least ≤ first ∧ first ≤ last ∧ last ≤ field.greatest

instance (field : Field) (term : Term) : Decidable (term.Fits field) :=
  match term with
  | .any => inferInstanceAs (Decidable True)
  | .every _ => inferInstanceAs (Decidable (_ ∧ _))
  | .only _ => inferInstanceAs (Decidable (_ ∧ _))
  | .span _ _ => inferInstanceAs (Decidable (_ ∧ _))

theorem value_fits {field : Field} {n : Int} (least : field.least ≤ n)
    (greatest : n ≤ field.greatest) : (value n).Fits field :=
  ⟨List.cons_ne_nil _ _, List.forall_mem_singleton.mpr ⟨least, greatest⟩⟩

end Term

variable {field : Field} {term : Term}

theorem Field.greatest_lt (field : Field) : field.greatest < 60 := by
  cases field <;> decide

theorem plainNumber?_signed {n : Int} (least : 0 ≤ n) (greatest : n ≤ field.greatest) :
    plainNumber? (Text.signed n) = some n.toNat := by
  obtain ⟨n, rfl⟩ := Int.eq_ofNat_of_zero_le least
  have limit := field.greatest_lt
  have short : (Text.decimal n).length ≤ Text.maxDigits :=
    (Text.decimal_length_le (by omega)).trans (by decide)
  have digits : (Text.decimal n).all Text.isPlainDigit = true :=
    List.all_eq_true.mpr fun c => Text.isPlainDigit_of_mem_decimal
  rw [Text.signed_natCast, plainNumber?, if_pos ⟨Nat.toDigits_ne_nil, digits⟩,
    Text.readDigits_decimal short, Int.toNat_natCast]
  rfl

theorem splitAt_joinWith {pieces : List (List Char)} (nonempty : pieces ≠ [])
    (absent : ∀ piece ∈ pieces, ',' ∉ piece) :
    Text.splitAt ',' (Text.joinWith "," pieces) = pieces :=
  Text.splitAt_intercalate nonempty absent

theorem Term.Fits.writtenAs (fits : term.Fits field) : WrittenAs field term.text term.parts := by
  have alone {part : Part} {text : List Char} (writes : part.Writes text)
      (partFits : part.Fits field.bounds) : WrittenAs field text [part] := by
    have noComma := not_mem_of_partChars writes.partChars (c := ',') (by decide)
    refine ⟨?_, List.forall_mem_singleton.mpr partFits⟩
    rw [Text.splitAt_of_not_mem noComma]
    exact .cons writes .nil
  cases term with
  | any => exact alone .star trivial
  | every step =>
      obtain ⟨positive, bounded⟩ := fits
      refine alone (.starStep (plainNumber?_signed (by omega) bounded)) ?_
      have same := Int.toNat_of_nonneg (show 0 ≤ step by omega)
      exact ⟨by omega, same ▸ bounded⟩
  | only values =>
      obtain ⟨nonempty, bounds⟩ := fits
      have reads : ∀ value ∈ values, plainNumber? (Text.signed value) = some value.toNat :=
        fun value member => plainNumber?_signed (by have := bounds value member; omega)
          (bounds value member).2
      refine ⟨?_, ?_⟩
      · rw [Term.text, splitAt_joinWith (by simpa using nonempty)]
        · rw [Term.parts, List.forall₂_map_left_iff, List.forall₂_map_right_iff,
            List.forall₂_same]
          exact fun value member => .single (reads value member)
        · simp only [List.forall_mem_map]
          exact fun value member => not_mem_of_plainNumber? (reads value member) (by decide)
      · simp only [Term.parts, List.forall_mem_map]
        intro value member
        have within := bounds value member
        have same := Int.toNat_of_nonneg (show 0 ≤ value by omega)
        exact ⟨same.symm ▸ within.1, same.symm ▸ within.2⟩
  | span first last =>
      obtain ⟨least, ordered, greatest⟩ := fits
      have sameFirst := Int.toNat_of_nonneg (show 0 ≤ first by omega)
      have sameLast := Int.toNat_of_nonneg (show 0 ≤ last by omega)
      have readsFirst := plainNumber?_signed (show 0 ≤ first by omega) (Int.le_trans ordered greatest)
      refine alone (.range readsFirst (plainNumber?_signed (by omega) greatest)) ?_
      exact ⟨sameFirst.symm ▸ least, by omega, sameLast.symm ▸ greatest⟩

theorem writtenAs_star (field : Field) : WrittenAs field ['*'] [.star] :=
  @Term.Fits.writtenAs field .any trivial

theorem isBlank_of_isPartChar {c : Char} (isPart : isPartChar c = true) :
    Text.isBlank c = false := by
  simp only [isPartChar, Bool.or_eq_true, beq_iff_eq] at isPart
  rcases isPart with ((digit | rfl) | rfl) | rfl
  · exact Text.isBlank_of_isDigit (Text.isDigit_of_isPlainDigit digit)
  all_goals decide

theorem WrittenAs.isWord {text : List Char} {parts : List Part}
    (written : WrittenAs field text parts) : Text.IsWord text := by
  constructor
  · intro empty
    subst empty
    obtain ⟨part, _, writes⟩ := exists_left_of_forall₂ written.1
      (show [] ∈ Text.splitAt ',' [] from List.mem_singleton_self _)
    exact writes.ne_nil rfl
  · intro c member
    rcases written.chars c member with rfl | isPart
    · decide
    · exact isBlank_of_isPartChar isPart

/-- The operators of other schedulers need other characters than digits and stars. -/
theorem operatorOf?_eq_none {piece : List Char}
    (chars : ∀ c ∈ piece, Text.isPlainDigit c = true ∨ c = '*') : operatorOf? piece = none := by
  unfold operatorOf?
  cases behind : piece.dropWhile Text.isPlainDigit with
  | nil => rfl
  | cons c rest =>
      have member : c ∈ piece := (List.dropWhile_suffix _).subset (behind ▸ List.mem_cons_self)
      have notDigit : Text.isPlainDigit c = false := by
        have head := List.head?_dropWhile_not Text.isPlainDigit piece
        rwa [behind] at head
      -- The first character behind the digits is a star, which starts no operator.
      have star : c = '*' := by simpa [notDigit] using chars c member
      subst star
      rfl

theorem WrittenAs.noOperator {text : List Char} {parts : List Part}
    (written : WrittenAs field text parts) : ∀ piece ∈ fieldPieces text, operatorOf? piece = none := by
  intro piece cut
  obtain ⟨item, inItems, inItem⟩ := List.mem_flatMap.mp cut
  obtain ⟨base, inBases, inBase⟩ := List.mem_flatMap.mp inItem
  refine operatorOf?_eq_none fun c member => ?_
  obtain ⟨cInBase, notHyphen⟩ := Text.mem_of_mem_splitAt inBase c member
  obtain ⟨cInItem, notSlash⟩ := Text.mem_of_mem_splitAt inBases c cInBase
  obtain ⟨cInText, notComma⟩ := Text.mem_of_mem_splitAt inItems c cInItem
  simpa [isPartChar, notComma, notSlash, notHyphen] using written.chars c cInText

theorem firstOperator?_of_writtenAs {expression : List Char}
    (written : ∀ text ∈ Text.words expression, ∃ field parts, WrittenAs field text parts) :
    firstOperator? expression = none := by
  rw [firstOperator?, List.findSome?_eq_none_iff]
  intro piece member
  obtain ⟨text, isWord, cut⟩ := List.mem_flatMap.mp member
  obtain ⟨field, parts, writtenText⟩ := written text isWord
  exact writtenText.noOperator piece cut

/-! Lines -/

/-- A line fits if each of its terms fits the field that it stands in. -/
structure Line.Fits (line : Line) : Prop where
  minute : line.minute.Fits .minute
  hour : line.hour.Fits .hour
  dayOfMonth : line.dayOfMonth.Fits .dayOfMonth
  month : line.month.Fits .month
  dayOfWeek : line.dayOfWeek.Fits .dayOfWeek

instance (line : Line) : Decidable line.Fits :=
  decidable_of_iff
    (line.minute.Fits .minute ∧ line.hour.Fits .hour ∧ line.dayOfMonth.Fits .dayOfMonth ∧
      line.month.Fits .month ∧ line.dayOfWeek.Fits .dayOfWeek)
    ⟨fun ⟨minute, hour, dayOfMonth, month, dayOfWeek⟩ =>
      ⟨minute, hour, dayOfMonth, month, dayOfWeek⟩,
      fun fits => ⟨fits.minute, fits.hour, fits.dayOfMonth, fits.month, fits.dayOfWeek⟩⟩

def Format.zeroSeconds : Format → Option (List Char)
  | .five => none
  | .six => some ['0']

def Line.textIn (line : Line) : Format → List Char
  | .five => line.text
  | .six => "0 ".toList ++ line.text

theorem isWord_zero : Text.IsWord ['0'] :=
  ⟨List.cons_ne_nil _ _, List.forall_mem_singleton.mpr (by decide)⟩

namespace Line.Fits

variable {line : Line}

theorem exists_parts (fits : line.Fits) :
    ∀ text ∈ line.terms.map Term.text, ∃ field parts, WrittenAs field text parts := by
  simp only [Line.terms, List.forall_mem_map, List.forall_mem_cons]
  exact ⟨⟨_, _, fits.minute.writtenAs⟩, ⟨_, _, fits.hour.writtenAs⟩,
    ⟨_, _, fits.dayOfMonth.writtenAs⟩, ⟨_, _, fits.month.writtenAs⟩,
    ⟨_, _, fits.dayOfWeek.writtenAs⟩, fun _ member => by cases member⟩

theorem isWord (fits : line.Fits) : ∀ text ∈ line.terms.map Term.text, Text.IsWord text := by
  intro text member
  obtain ⟨field, parts, written⟩ := fits.exists_parts text member
  exact written.isWord

theorem words (fits : line.Fits) : Text.words line.text = line.terms.map Term.text :=
  Text.words_unwords fits.isWord

theorem words_textIn (fits : line.Fits) (format : Format) :
    Text.words (line.textIn format) =
      format.zeroSeconds.toList ++ line.terms.map Term.text := by
  cases format with
  | five => exact fits.words
  | six =>
      have isWord : ∀ text ∈ ['0'] :: line.terms.map Term.text, Text.IsWord text :=
        List.forall_mem_cons.mpr ⟨isWord_zero, fits.isWord⟩
      exact Text.words_unwords isWord

theorem splitSeconds (fits : line.Fits) (format : Format) :
    Crontab.splitSeconds (line.textIn format) = (format.zeroSeconds, line.text) := by
  unfold Crontab.splitSeconds
  rw [fits.words_textIn]
  cases format <;> rfl

theorem exists_table (fits : line.Fits) :
    ∃ table, Timetable.ofText? line.text = some (.ok table) := by
  rw [Timetable.ofText?, fits.words]
  exact ⟨_, congrArg some (Timetable.ofFields_of_writtenAs fits.minute.writtenAs
    fits.hour.writtenAs fits.dayOfMonth.writtenAs fits.month.writtenAs
    fits.dayOfWeek.writtenAs)⟩

theorem contentDefect? (fits : line.Fits) (format : Format) :
    Crontab.contentDefect? (line.textIn format) = .ok none := by
  obtain ⟨table, read⟩ := fits.exists_table
  have noOperator : firstOperator? line.text = none :=
    firstOperator?_of_writtenAs (fits.words ▸ fits.exists_parts)
  have zeroSeconds : secondsDefect? format.zeroSeconds = .ok none := by
    cases format <;> decide
  unfold Crontab.contentDefect?
  rw [fits.splitSeconds]
  simp only [zeroSeconds, noOperator, timetableDefect?, read]

end Line.Fits

/-! Well-formed schedules -/

/-- A schedule that every check takes for one of a given layout. -/
structure WellFormed (schedule : List Char) (format : Format) : Prop where
  accepted : validate schedule (some format) = .ok ⟨none, some format⟩
  recognized : validate schedule none = .ok ⟨none, some format⟩
  seconds : (splitSeconds schedule).1 = format.zeroSeconds
  explained : (explainFields? (splitSeconds schedule).2).isSome

theorem Line.Fits.wellFormed {line : Line} (fits : line.Fits) (format : Format) :
    WellFormed (line.textIn format) format := by
  have content := fits.contentDefect? format
  have count : (Text.words (line.textIn format)).length = format.fieldCount := by
    rw [fits.words_textIn]
    cases format <;> rfl
  have detected : detectFormat (line.textIn format) = some format := by
    rw [detectFormat, count]
    cases format <;> rfl
  have someFields : format.fieldCount ≠ 0 := by cases format <;> decide
  refine ⟨?_, ?_, ?_, ?_⟩
  · simp [validate, count, someFields, content, detected]
    rfl
  · simp [validate, count, someFields, content, detected]
    rfl
  · rw [fits.splitSeconds]
  · rw [fits.splitSeconds, explainFields?, fits.words]
    rfl

theorem WellFormed.words_length {schedule : List Char} {format : Format}
    (wellFormed : WellFormed schedule format) :
    (Text.words schedule).length = format.fieldCount := by
  by_contra unfit
  have accepted := wellFormed.accepted
  simp only [validate] at accepted
  split at accepted
  · cases accepted
  · simp [unfit] at accepted

end Recurrence.Crontab
