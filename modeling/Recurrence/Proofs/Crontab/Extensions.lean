import Recurrence.Proofs.Crontab.Items
import Recurrence.Proofs.Crontab.Refusal

namespace Recurrence.Crontab

/-! Operators of other schedulers. The check for them knows digits only, while the timetable also
reads an `l` in front of a weekday and the names of weekdays in front of `#`. -/

/-- An item of one of the five fields of an expression. -/
def HasItem (expression : List Char) (field : Field) (item : List Char) : Prop :=
  ∃ text, (field, text) ∈ Field.all.zip (Text.words (splitSeconds expression).2) ∧
    item ∈ Text.splitAt ',' text

def IsDigits (text : List Char) : Prop :=
  text ≠ [] ∧ ∀ c ∈ text, Text.isPlainDigit c = true

/-- A number or a name of a weekday, or a range of them. -/
inductive IsDays : List Char → Prop
  | day {dayText : List Char} (day : IsDigits dayText ∨ IsDayName dayText) : IsDays dayText
  | range {firstText lastText : List Char} (first : IsDigits firstText ∨ IsDayName firstText)
      (last : IsDigits lastText ∨ IsDayName lastText) : IsDays (firstText ++ '-' :: lastText)

/-- Items with an operator, in small letters. -/
inductive IsExtension : Field → List Char → Prop
  | everything (field : Field) : IsExtension field ['?']
  | lastDay {item : List Char} (operator : 'l' ∈ item) : IsExtension .dayOfMonth item
  | workday (field : Field) {dayText : List Char} (digits : IsDigits dayText) :
      IsExtension field (dayText ++ ['w'])
  | lastWorkday (field : Field) : IsExtension field ['l', 'w']
  | nth {dayText turnText : List Char} (days : IsDays dayText) (digits : IsDigits turnText) :
      IsExtension .dayOfWeek (dayText ++ '#' :: turnText)
  | last {dayText : List Char} (days : IsDays dayText) : IsExtension .dayOfWeek ('l' :: dayText)
  | lastBehind {dayText : List Char} (days : IsDays dayText) :
      IsExtension .dayOfWeek (dayText ++ ['l'])

/-- The items with an operator, in small letters, that the check for operators does not know and
the timetable reads. -/
inductive IsOverlooked : List Char → Prop
  | last {dayText : List Char} {n : Nat} (reads : plainNumber? dayText = some n) (bound : n ≤ 7) :
      IsOverlooked ('l' :: dayText)
  | nth {dayText turnText : List Char} {turn : Nat} (names : IsDayName dayText)
      (readsTurn : plainNumber? turnText = some turn) (least : 1 ≤ turn) (greatest : turn ≤ 5) :
      IsOverlooked (dayText ++ '#' :: turnText)
  | nthOfRange {firstText lastText turnText : List Char} {turn : Nat}
      (namesFirst : IsDayName firstText) (namesLast : IsDayName lastText)
      (readsTurn : plainNumber? turnText = some turn) (least : 1 ≤ turn) (greatest : turn ≤ 5) :
      IsOverlooked ((firstText ++ '-' :: lastText) ++ '#' :: turnText)

variable {field : Field} {item text : List Char}

theorem IsOverlooked.isExtension (overlooked : IsOverlooked item) : IsExtension .dayOfWeek item := by
  cases overlooked with
  | last reads => exact .last (.day (Or.inl (plainNumber?_digits reads)))
  | nth names readsTurn => exact .nth (.day (Or.inr names)) (plainNumber?_digits readsTurn)
  | nthOfRange namesFirst namesLast readsTurn =>
      exact .nth (.range (Or.inr namesFirst) (Or.inr namesLast)) (plainNumber?_digits readsTurn)

/-! Items that are caught -/

/-- An operator that makes up a whole item is a piece of its field. -/
theorem mem_fieldPieces (member : item ∈ Text.splitAt ',' text) (noSlash : '/' ∉ item)
    (noHyphen : '-' ∉ item) : item ∈ fieldPieces text := by
  refine List.mem_flatMap.mpr ⟨item, member, List.mem_flatMap.mpr ⟨item, ?_, ?_⟩⟩
  · rw [Text.splitAt_of_not_mem noSlash]
    exact List.mem_singleton_self item
  · rw [Text.splitAt_of_not_mem noHyphen]
    exact List.mem_singleton_self item

theorem IsDigits.not_mem {c : Char} (digits : IsDigits text)
    (other : Text.isPlainDigit c = false) : c ∉ text := by
  intro member
  rw [digits.2 c member] at other
  cases other

theorem toNat_lt_of_isPlainDigit {c : Char} (digit : Text.isPlainDigit c = true) :
    c.toNat < 65 :=
  toNat_lt_of_isPartChar (isPartChar_of_isPlainDigit digit)

theorem toUpper_of_lt {c : Char} (below : c.toNat < 65) : c.toUpper = c := by
  unfold Char.toUpper
  rw [dif_neg]
  intro small
  exact absurd (Nat.le_trans (show 97 ≤ c.toNat from small.1) below.le) (by decide)

theorem IsDigits.map_toUpper (digits : IsDigits text) : text.map Char.toUpper = text :=
  (List.map_congr_left fun c member =>
    toUpper_of_lt (toNat_lt_of_isPlainDigit (digits.2 c member))).trans (List.map_id' text)

theorem operatorOf?_nth {dayText turnText : List Char} (day : IsDigits dayText)
    (turn : IsDigits turnText) : operatorOf? (dayText ++ '#' :: turnText) = some '#' := by
  have mark : ('#' :: turnText).dropWhile Text.isPlainDigit = '#' :: turnText :=
    List.dropWhile_cons_of_neg (by decide)
  have allDigits : turnText.all Text.isPlainDigit = true := List.all_eq_true.mpr turn.2
  unfold operatorOf?
  rw [List.takeWhile_append_of_pos day.2, List.dropWhile_append_of_pos day.2, mark, List.map_cons,
    turn.map_toUpper]
  cases dayText with
  | nil => exact absurd rfl day.1
  | cons c others => exact if_pos ⟨turn.1, allDigits⟩

theorem not_reads_workday {dayText : List Char} (digits : IsDigits dayText) :
    ¬ field.Reads (dayText ++ ['w']) := by
  intro reads
  have absent {c : Char} (other : Text.isPlainDigit c = false) (notW : c ≠ 'w') :
      c ∉ dayText ++ ['w'] := by
    simp [digits.not_mem other, notW]
  obtain last | ⟨n, term⟩ := reads.exists_readTerm? (absent (by decide) (by decide))
    (absent (by decide) (by decide)) (absent (by decide) (by decide))
  · exact absent (by decide) (by decide) (last ▸ List.mem_cons_self)
  · rcases Field.readTerm?_cases term with ⟨number, numbered, _⟩ | ⟨word, listed, written⟩
    · exact not_mem_of_plainNumber? numbered (c := 'w') (by decide) (by simp)
    · obtain ⟨c, member⟩ := List.exists_mem_of_ne_nil _ digits.1
      have noDigit := Field.isPlainDigit_of_mem_word listed c
        (written ▸ List.mem_append_left _ member)
      exact digits.not_mem noDigit member

theorem IsExtension.exists_mark (extension : IsExtension field item) :
    ∃ c ∈ item, c = '?' ∨ c = 'l' ∨ c = 'w' ∨ c = '#' := by
  cases extension with
  | everything => exact ⟨'?', by simp⟩
  | lastDay operator => exact ⟨'l', operator, by simp⟩
  | workday => exact ⟨'w', by simp⟩
  | lastWorkday => exact ⟨'l', by simp⟩
  | nth => exact ⟨'#', by simp⟩
  | last => exact ⟨'l', by simp⟩
  | lastBehind => exact ⟨'l', by simp⟩

/-- An item that is read without a turn has no operator but the last day of the month. -/
theorem Field.Reads.not_isExtension (reads : field.Reads item) (notLast : item ≠ ['l']) :
    ¬ IsExtension field item := by
  intro extension
  obtain ⟨last, _⟩ | chars := reads.itemChars
  · exact notLast last
  · cases extension with
    | everything =>
        have mark := chars '?' (by simp)
        revert mark
        cases field <;> decide
    | lastDay operator => exact absurd (chars 'l' operator) (by decide)
    | workday _ digits => exact not_reads_workday digits reads
    | lastWorkday =>
        have marks := And.intro (chars 'l' (by simp)) (chars 'w' (by simp))
        revert marks
        cases field <;> decide
    | nth => exact absurd (chars '#' (by simp)) (by decide)
    | last => exact absurd (chars 'l' (by simp)) (by decide)
    | lastBehind => exact absurd (chars 'l' (by simp)) (by decide)

theorem isOverlooked_of_isTurn
    (noOperator : '/' ∉ item → '-' ∉ item → operatorOf? item = none)
    (turns : IsTurn (Text.lower item)) : IsOverlooked (Text.lower item) := by
  generalize lowered : Text.lower item = small at turns ⊢
  cases turns with
  | last reads bound => exact .last reads bound
  | @nth dayText turnText n turn readsDay readsTurn least greatest =>
      rcases Field.readTerm?_cases readsDay with ⟨number, numbered, _⟩ | named
      · -- A number in front of the mark is its own small form, and so the check knows it.
        have day := plainNumber?_digits numbered
        have turn := plainNumber?_digits readsTurn
        have below : ∀ c ∈ dayText ++ '#' :: turnText, c.toNat < 65 := by
          simp only [List.forall_mem_append, List.forall_mem_cons]
          exact ⟨fun c member => toNat_lt_of_isPlainDigit (day.2 c member), by decide,
            fun c member => toNat_lt_of_isPlainDigit (turn.2 c member)⟩
        rw [Text.eq_of_lower_of_forall_lt lowered below, operatorOf?_nth day turn] at noOperator
        have absent {c : Char} (other : Text.isPlainDigit c = false) (notMark : c ≠ '#') :
            c ∉ dayText ++ '#' :: turnText := by
          simp [IsDigits.not_mem day other, IsDigits.not_mem turn other, notMark]
        cases noOperator (absent (by decide) (by decide)) (absent (by decide) (by decide))
      · exact .nth named readsTurn least greatest
  | nthOfRange namesFirst namesLast readsTurn least greatest =>
      exact .nthOfRange namesFirst namesLast readsTurn least greatest

/-- What is read of a field that passes the check for operators. -/
theorem Field.forms_of_spread {spread : Spread} (read : field.spread (Text.lower text) = .ok spread)
    (noOperator : ∀ piece ∈ fieldPieces text, operatorOf? piece = none) :
    ((Text.lower text).head? = some 'r' ∧ ∀ c ∈ Text.lower text, isChanceChar c = true) ∨
      ∀ item ∈ Text.splitAt ',' text, field.Reads (Text.lower item) ∨
        field = .dayOfWeek ∧ IsOverlooked (Text.lower item) := by
  rcases spread_cases read with ⟨everything, _⟩ | chance | forms
  · have whole := Text.eq_of_lower_of_forall_lt everything (List.forall_mem_singleton.mpr (by decide))
    subst whole
    exact absurd (noOperator ['?'] (by decide)) (by decide)
  · exact Or.inl chance
  · refine Or.inr fun item member => ?_
    have inSmall : Text.lower item ∈ Text.splitAt ',' (Text.lower text) := by
      rw [Text.splitAt_lower]
      exact List.mem_map_of_mem member
    refine (forms _ inSmall).imp_right fun turns => ⟨turns.1, ?_⟩
    exact isOverlooked_of_isTurn
      (fun noSlash noHyphen => noOperator item (mem_fieldPieces member noSlash noHyphen)) turns.2

theorem isOverlooked_of_spread {spread : Spread}
    (read : field.spread (Text.lower text) = .ok spread)
    (noOperator : ∀ piece ∈ fieldPieces text, operatorOf? piece = none)
    (member : item ∈ Text.splitAt ',' text) (extension : IsExtension field (Text.lower item)) :
    field = .dayOfWeek ∧ IsOverlooked (Text.lower item) := by
  rcases Field.forms_of_spread read noOperator with ⟨_, chars⟩ | forms
  · obtain ⟨c, marked, mark⟩ := extension.exists_mark
    have inSmall : Text.lower item ∈ Text.splitAt ',' (Text.lower text) := by
      rw [Text.splitAt_lower]
      exact List.mem_map_of_mem member
    have chance := chars c (Text.mem_of_mem_splitAt inSmall c marked).1
    rcases mark with rfl | rfl | rfl | rfl <;> exact absurd chance (by decide)
  · rcases forms item member with reads | overlooked
    · by_cases last : Text.lower item = ['l']
      · rcases Text.eq_of_lower_eq_l last with rfl | rfl <;>
          exact absurd (noOperator _ (mem_fieldPieces member (by decide) (by decide))) (by decide)
      · exact absurd extension (reads.not_isExtension last)
    · exact overlooked

/-! Items that pass -/

/-- What overlooked items are written with besides digits. -/
def operatorChars : List Char :=
  'l' :: '#' :: '-' :: weekdayWords.flatMap String.toList

namespace IsOverlooked

theorem chars (overlooked : IsOverlooked item) :
    ∀ c ∈ item, Text.isPlainDigit c = true ∨ c ∈ operatorChars := by
  have digits {digitText : List Char} {n : Nat} (reads : plainNumber? digitText = some n) :
      ∀ c ∈ digitText, Text.isPlainDigit c = true ∨ c ∈ operatorChars :=
    fun c member => Or.inl ((plainNumber?_digits reads).2 c member)
  have names {name : List Char} (named : IsDayName name) :
      ∀ c ∈ name, Text.isPlainDigit c = true ∨ c ∈ operatorChars := by
    obtain ⟨word, listed, rfl⟩ := named
    intro c member
    exact Or.inr (by simp only [operatorChars, List.mem_cons, List.mem_flatMap]; tauto)
  have letter : 'l' ∈ operatorChars := by decide
  have mark : '#' ∈ operatorChars := by decide
  have hyphen : '-' ∈ operatorChars := by decide
  cases overlooked with
  | last reads => exact List.forall_mem_cons.mpr ⟨Or.inr letter, digits reads⟩
  | nth named readsTurn =>
      simp only [List.forall_mem_append, List.forall_mem_cons]
      exact ⟨names named, Or.inr mark, digits readsTurn⟩
  | nthOfRange namesFirst namesLast readsTurn =>
      simp only [List.forall_mem_append, List.forall_mem_cons]
      exact ⟨⟨names namesFirst, Or.inr hyphen, names namesLast⟩, Or.inr mark, digits readsTurn⟩

theorem not_mem (overlooked : IsOverlooked item) {c : Char} (noDigit : Text.isPlainDigit c = false)
    (other : c ∉ operatorChars) : c ∉ item := by
  intro member
  rcases overlooked.chars c member with digit | listed
  · rw [digit] at noDigit
    cases noDigit
  · exact other listed

theorem lower (overlooked : IsOverlooked item) : Text.lower item = item := by
  have letters :
      operatorChars.all (fun c => c.toNat < 65 || 91 ≤ c.toNat && c.toNat < 123) = true := by
    decide
  refine Text.lower_of_not_capital fun c member => ?_
  rcases overlooked.chars c member with digit | listed
  · exact Or.inl (toNat_lt_of_isPlainDigit digit)
  · simpa using List.all_eq_true.mp letters c listed

theorem isWord (overlooked : IsOverlooked item) : Text.IsWord item := by
  have letters : operatorChars.all (!Text.isBlank ·) = true := by decide
  refine ⟨?_, fun c member => ?_⟩
  · cases overlooked <;> simp
  · rcases overlooked.chars c member with digit | listed
    · exact isBlank_of_isPartChar (isPartChar_of_isPlainDigit digit)
    · simpa using List.all_eq_true.mp letters c listed

end IsOverlooked

/-- The weekdays that a text in front of `#` stands for. -/
def turnDays? (dayText : List Char) : Option (List Nat) :=
  if dayText.contains '-' ∧ !dayText.any Text.isPlainDigit then
    Field.dayOfWeek.readRange? dayText 1
  else (Field.dayOfWeek.readTerm? dayText).map ([·])

theorem readTurn?_nth {dayText turnText : List Char} {turn : Nat} {days : List Nat}
    (noOperator : 'l' ∉ dayText ∧ '#' ∉ dayText) (readsDays : turnDays? dayText = some days)
    (bound : days.all (· ≤ Field.dayOfWeek.greatest) = true)
    (readsTurn : plainNumber? turnText = some turn) (least : 1 ≤ turn) (greatest : turn ≤ 5) :
    Field.readTurn? (dayText ++ '#' :: turnText) = some (days, .nth turn) := by
  unfold Field.readTurn?
  split
  · rename_i lastText starts
    cases dayText with
    | nil => cases starts
    | cons c others =>
        cases (List.cons.inj starts).1
        exact absurd List.mem_cons_self noOperator.1
  · rw [Text.splitFirst?_append '#' noOperator.2]
    have admitted : 1 ≤ turn ∧ turn ≤ 5 ∧ days.all (· ≤ Field.dayOfWeek.greatest) = true :=
      ⟨least, greatest, bound⟩
    simp only [Option.bind_eq_bind, Option.bind_some, readsTurn]
    unfold turnDays? at readsDays
    split at readsDays
    · rename_i ranged
      rw [if_pos ranged, readsDays]
      exact if_pos admitted
    · rename_i single
      rw [if_neg single, readsDays]
      exact if_pos admitted

theorem turnDays?_of_isDayName (named : IsDayName text) :
    ('l' ∉ text ∧ '#' ∉ text) ∧
      ∃ days ∈ turnDays? text, days.all (· ≤ Field.dayOfWeek.greatest) = true := by
  obtain ⟨word, listed, rfl⟩ := named
  revert word
  decide

theorem turnDays?_of_range {firstText lastText : List Char} (namesFirst : IsDayName firstText)
    (namesLast : IsDayName lastText) :
    ('l' ∉ firstText ++ '-' :: lastText ∧ '#' ∉ firstText ++ '-' :: lastText) ∧
      ∃ days ∈ turnDays? (firstText ++ '-' :: lastText),
        days.all (· ≤ Field.dayOfWeek.greatest) = true := by
  obtain ⟨first, listedFirst, rfl⟩ := namesFirst
  obtain ⟨last, listedLast, rfl⟩ := namesLast
  have ranges : ∀ first ∈ weekdayWords, ∀ last ∈ weekdayWords,
      ('l' ∉ first.toList ++ '-' :: last.toList ∧ '#' ∉ first.toList ++ '-' :: last.toList) ∧
        ∃ days ∈ turnDays? (first.toList ++ '-' :: last.toList),
          days.all (· ≤ Field.dayOfWeek.greatest) = true := by
    decide
  exact ranges first listedFirst last listedLast

/-- An overlooked item is read as weekdays in one turn. -/
theorem IsOverlooked.exists_turn (overlooked : IsOverlooked item) :
    ∃ days turn, Field.readTurn? item = some (days, turn) := by
  cases overlooked with
  | @last dayText n reads bound =>
      have term : Field.dayOfWeek.readTerm? dayText = some (if n = 7 then 0 else n) := by
        simp [Field.readTerm?, reads]
      have within : (if n = 7 then 0 else n) ≤ Field.dayOfWeek.greatest := by
        change _ ≤ 6
        split <;> omega
      refine ⟨[if n = 7 then 0 else n], .last, ?_⟩
      simp only [Field.readTurn?, reads, term]
      exact if_pos within
  | nth named readsTurn least greatest =>
      obtain ⟨noOperator, days, readsDays, bound⟩ := turnDays?_of_isDayName named
      exact ⟨days, _, readTurn?_nth noOperator readsDays bound readsTurn least greatest⟩
  | nthOfRange namesFirst namesLast readsTurn least greatest =>
      obtain ⟨noOperator, days, readsDays, bound⟩ := turnDays?_of_range namesFirst namesLast
      exact ⟨days, _, readTurn?_nth noOperator readsDays bound readsTurn least greatest⟩

theorem mixesTurns_of_turn (days : List Nat) (turn : Turn) :
    Timetable.mixesTurns ⟨(days.map Entry.value).eraseDups, days.map (·, turn)⟩ = false := by
  rw [Timetable.mixesTurns, Bool.and_eq_false_iff, List.any_eq_false]
  refine Or.inr fun entry listed => ?_
  obtain ⟨day, member, rfl⟩ := List.mem_map.mp (List.mem_eraseDups.mp listed)
  simpa using member

theorem IsOverlooked.exists_spread (overlooked : IsOverlooked item) :
    ∃ spread, Field.dayOfWeek.spread item = .ok spread ∧ Timetable.mixesTurns spread = false := by
  obtain ⟨days, turn, read⟩ := overlooked.exists_turn
  have noComma : ',' ∉ item := overlooked.not_mem (by decide) (by decide)
  have parts : (Text.splitAt ',' item).mapM Field.dayOfWeek.readPart? =
      some [⟨days.map .value, days.map (·, turn)⟩] := by
    rw [Text.splitAt_of_not_mem noComma]
    simp [Field.readPart?, read]
  refine ⟨_, Field.spread_of_parts parts, ?_⟩
  simp only [Spread.joined, List.flatMap_singleton]
  exact mixesTurns_of_turn days turn

theorem operatorOf?_of_isDayName (named : IsDayName text) (behind : List Char) :
    operatorOf? (text ++ behind) = none := by
  obtain ⟨c, d, e, rfl, noDigit, _⟩ := named.letters
  unfold operatorOf?
  rw [List.cons_append, List.takeWhile_cons_of_neg (by simp [noDigit]),
    List.dropWhile_cons_of_neg (by simp [noDigit])]
  dsimp only
  split <;> simp_all

theorem operatorOf?_last {n : Nat} (reads : plainNumber? text = some n) :
    operatorOf? ('l' :: text) = none := by
  have digits : IsDigits text := plainNumber?_digits reads
  have notW : 'W' ∉ text := not_mem_of_plainNumber? reads (by decide)
  unfold operatorOf?
  rw [List.takeWhile_cons_of_neg (by decide), List.dropWhile_cons_of_neg (by decide), List.map_cons,
    digits.map_toUpper]
  dsimp only
  split <;> simp_all [IsDigits]

theorem IsOverlooked.noOperator (overlooked : IsOverlooked item) :
    ∀ piece ∈ fieldPieces item, operatorOf? piece = none := by
  have noComma : ',' ∉ item := overlooked.not_mem (by decide) (by decide)
  have noSlash : '/' ∉ item := overlooked.not_mem (by decide) (by decide)
  rw [fieldPieces, Text.splitAt_of_not_mem noComma, List.flatMap_singleton,
    Text.splitAt_of_not_mem noSlash, List.flatMap_singleton]
  have alone {text : List Char} (noHyphen : '-' ∉ text) (unknown : operatorOf? text = none) :
      ∀ piece ∈ Text.splitAt '-' text, operatorOf? piece = none := by
    rw [Text.splitAt_of_not_mem noHyphen]
    exact List.forall_mem_singleton.mpr unknown
  cases overlooked with
  | last reads bound =>
      have noHyphen := not_mem_of_plainNumber? reads (c := '-') (by decide)
      exact alone (by simp [noHyphen]) (operatorOf?_last reads)
  | nth named readsTurn =>
      have noHyphen := not_mem_of_plainNumber? readsTurn (c := '-') (by decide)
      exact alone (by simp [noHyphen, named.noHyphen]) (operatorOf?_of_isDayName named _)
  | nthOfRange namesFirst namesLast readsTurn =>
      have noHyphen := not_mem_of_plainNumber? readsTurn (c := '-') (by decide)
      have first := operatorOf?_of_isDayName namesFirst []
      rw [List.append_nil] at first
      rw [List.append_assoc, List.cons_append, Text.splitAt_append namesFirst.noHyphen]
      exact List.forall_mem_cons.mpr ⟨first, alone (by simp [noHyphen, namesLast.noHyphen])
        (operatorOf?_of_isDayName namesLast _)⟩

/-- An overlooked item in the field of weekdays passes all checks. -/
theorem IsOverlooked.isValid (overlooked : IsOverlooked item) :
    IsValid ("* * * * ".toList ++ item) none := by
  have star : Text.IsWord ['*'] := (writtenAs_star .minute).isWord
  have areWords : ∀ word ∈ [['*'], ['*'], ['*'], ['*'], item], Text.IsWord word := by
    simp only [List.forall_mem_cons]
    exact ⟨star, star, star, star, overlooked.isWord, fun _ member => by cases member⟩
  have joined : "* * * * ".toList ++ item = Text.unwords [['*'], ['*'], ['*'], ['*'], item] := by
    simp only [Text.unwords_cons_cons, Text.unwords_singleton]
    rfl
  obtain ⟨spread, read, unmixed⟩ := overlooked.exists_spread
  rw [joined]
  refine (isValid_unwords_iff areWords rfl).mpr ⟨?_, ?_⟩
  · have noStar : ∀ piece ∈ fieldPieces ['*'], Crontab.operatorOf? piece = none :=
      (writtenAs_star .minute).noOperator
    rw [firstOperator?, Text.words_unwords areWords, List.findSome?_eq_none_iff]
    simp only [List.flatMap_cons, List.flatMap_nil, List.forall_mem_append]
    exact ⟨noStar, noStar, noStar, noStar, overlooked.noOperator, fun _ member => by cases member⟩
  · rw [Timetable.ofText?, Text.words_unwords areWords]
    have weekdays := overlooked.lower.symm ▸ read
    exact ⟨_, congrArg some (Timetable.ofFields_eq_ok_iff.mpr ⟨_, _, _, _, _,
      spread_of_writtenAs (writtenAs_star .minute), spread_of_writtenAs (writtenAs_star .hour),
      spread_of_writtenAs (writtenAs_star .dayOfMonth), spread_of_writtenAs (writtenAs_star .month),
      weekdays, unmixed, rfl⟩)⟩

/-! Items of valid expressions -/

/-- The only items with an operator that a valid expression has are overlooked ones in its field of
weekdays. -/
theorem isExtension_iff_isOverlooked {expression : List Char} {format : Option Format}
    (valid : IsValid expression format) (holds : HasItem expression field item) :
    IsExtension field (Text.lower item) ↔
      field = .dayOfWeek ∧ IsOverlooked (Text.lower item) := by
  constructor
  · intro extension
    obtain ⟨passes, table, read⟩ := isValid_iff.mp valid
    obtain ⟨text, placed, member⟩ := holds
    obtain ⟨spread, spreadRead⟩ := exists_spread_of_ofText? read _ placed
    refine isOverlooked_of_spread spreadRead (fun piece cut => ?_) member extension
    have pieces := List.findSome?_eq_none_iff.mp passes.operators
    exact pieces piece (List.mem_flatMap.mpr ⟨text, (List.of_mem_zip placed).2, cut⟩)
  · intro overlooked
    obtain ⟨rfl, overlooked⟩ := overlooked
    exact overlooked.isExtension

theorem isExtension_iff_isOverlooked_lastFriday :
    IsExtension .dayOfWeek (Text.lower "L5".toList) ∧ ¬ IsExtension .month (Text.lower "jul".toList) ∧
      IsValid ("* * * * ".toList ++ "sat-mon#5".toList) none := by
  have valid : IsValid "0 9 * jul L5".toList none := by decide
  have july : HasItem "0 9 * jul L5".toList .month "jul".toList :=
    ⟨"jul".toList, by decide, by decide⟩
  have friday : HasItem "0 9 * jul L5".toList .dayOfWeek "L5".toList :=
    ⟨"L5".toList, by decide, by decide⟩
  have lower : Text.lower "L5".toList = ['l', '5'] := by decide
  have five : plainNumber? ['5'] = some 5 := by decide
  have saturday : IsDayName "sat".toList := ⟨"sat", by decide, rfl⟩
  have monday : IsDayName "mon".toList := ⟨"mon", by decide, rfl⟩
  refine ⟨(isExtension_iff_isOverlooked valid friday).mpr ⟨rfl, ?_⟩, fun operator => ?_,
    IsOverlooked.isValid ?_⟩
  · exact lower ▸ .last five (by decide)
  · cases ((isExtension_iff_isOverlooked valid july).mp operator).1
  · exact .nthOfRange saturday monday five (by decide) (by decide)

theorem isValid_nthWeekday :
    ¬ ∀ expression format, IsValid expression format →
      ∀ field item, HasItem expression field item → ¬ IsExtension field (Text.lower item) := by
  intro caught
  have lower : Text.lower "fri#2".toList = "fri".toList ++ '#' :: ['2'] := by decide
  have friday : IsDayName "fri".toList := ⟨"fri", by decide, rfl⟩
  refine caught "0 0 * * fri#2".toList none (by decide) .dayOfWeek "fri#2".toList
    ⟨"fri#2".toList, by decide, by decide⟩ ?_
  have two : IsDigits ['2'] :=
    ⟨List.cons_ne_nil _ _, List.forall_mem_singleton.mpr (by decide)⟩
  exact lower ▸ .nth (.day (Or.inr friday)) two

end Recurrence.Crontab
