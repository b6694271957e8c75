import Recurrence.Proofs.Crontab.Checks
import Recurrence.Proofs.Crontab.Items
import Recurrence.Proofs.Crontab.Line

namespace Recurrence.Crontab

/-! The field for the seconds and the field of the minutes. Both hold the same values, but the
seconds are checked against the field grammar and the minutes against that of timetables. -/

/-- Items that a timetable may read and the field grammar does not: a step behind a single value,
a step that is longer than the field, and a range that ends before it begins. -/
inductive Exceeds (bounds : Bounds) : List Char → Prop
  | valueStep {valueText stepText : List Char} {value step : Nat}
      (readsValue : plainNumber? valueText = some value)
      (readsStep : plainNumber? stepText = some step) :
      Exceeds bounds (valueText ++ '/' :: stepText)
  | longStep {base stepText : List Char} {step : Nat} (noStep : '/' ∉ base)
      (readsStep : plainNumber? stepText = some step) (long : bounds.max < step) :
      Exceeds bounds (base ++ '/' :: stepText)
  | wrapped {firstText lastText : List Char} {first last : Nat}
      (readsFirst : plainNumber? firstText = some first)
      (readsLast : plainNumber? lastText = some last) (wraps : last < first) :
      Exceeds bounds (firstText ++ '-' :: lastText)
  | wrappedStep {firstText lastText stepText : List Char} {first last step : Nat}
      (readsFirst : plainNumber? firstText = some first)
      (readsLast : plainNumber? lastText = some last) (wraps : last < first)
      (readsStep : plainNumber? stepText = some step) :
      Exceeds bounds ((firstText ++ '-' :: lastText) ++ '/' :: stepText)

variable {bounds : Bounds} {item text : List Char} {values : List Int}

/-! Items of the field grammar -/

theorem expandPart_append_ok {base stepText : List Char} {step : Nat} (noStep : '/' ∉ base)
    (readsStep : plainNumber? stepText = some step)
    (accepted : expandPart bounds (base ++ '/' :: stepText) = .ok values) :
    (step : Int) ≤ bounds.max ∧ (base = ['*'] ∨ '-' ∈ base) ∧
      expandBase bounds base step = .ok values := by
  cases read : readStep bounds (base ++ '/' :: stepText) with
  | error fault => simp [expandPart, read] at accepted
  | ok found =>
      obtain ⟨found, foundStep⟩ := found
      rw [expandPart_of_readStep (by simp) read] at accepted
      obtain ⟨absent, _⟩ | ⟨foundText, n, same, absent, reads, rfl, _, bounded, ranged⟩ :=
        readStep_ok read
      · exact absurd (by simp) absent
      · obtain ⟨rfl, rfl⟩ := Text.eq_of_append_eq_append noStep absent same
        rw [readsStep] at reads
        cases reads
        exact ⟨bounded, ranged, accepted⟩

theorem ordered_of_expandBase {firstText lastText : List Char} {first last : Nat} {step : Int}
    (readsFirst : plainNumber? firstText = some first)
    (readsLast : plainNumber? lastText = some last)
    (accepted : expandBase bounds (firstText ++ '-' :: lastText) step = .ok values) :
    first ≤ last := by
  have noHyphen := not_mem_of_plainNumber? readsFirst (c := '-') (by decide)
  obtain ⟨star, _⟩ | ⟨_, _, foundFirst, foundLast, same, readsFound, readsFound', fits, _⟩ |
    ⟨_, reads, _⟩ := expandBase_ok accepted
  · exact absurd star (plainNumber?_ne_star readsFirst _)
  · have noHyphen' := not_mem_of_plainNumber? readsFound (c := '-') (by decide)
    obtain ⟨rfl, rfl⟩ := Text.eq_of_append_eq_append noHyphen noHyphen' same
    rw [readsFirst] at readsFound
    rw [readsLast] at readsFound'
    cases readsFound
    cases readsFound'
    exact fits.2.1
  · exact absurd (by simp) (not_mem_of_plainNumber? reads (c := '-') (by decide))

theorem Exceeds.not_accepted (exceeds : Exceeds bounds item) : expandPart bounds item ≠ .ok values := by
  intro accepted
  cases exceeds with
  | valueStep readsValue readsStep =>
      have noStep := not_mem_of_plainNumber? readsValue (c := '/') (by decide)
      obtain ⟨_, rfl | hyphen, _⟩ := expandPart_append_ok noStep readsStep accepted
      · exact absurd (plainNumber?_ne_star readsValue []) (by simp)
      · exact not_mem_of_plainNumber? readsValue (by decide) hyphen
  | longStep noStep readsStep long =>
      have := (expandPart_append_ok noStep readsStep accepted).1
      omega
  | wrapped readsFirst readsLast wraps =>
      have noStep := slash_not_mem_range readsFirst readsLast
      rw [expandPart_of_readStep (by simp) (readStep_of_not_mem noStep)] at accepted
      have := ordered_of_expandBase readsFirst readsLast accepted
      omega
  | wrappedStep readsFirst readsLast wraps readsStep =>
      have noStep := slash_not_mem_range readsFirst readsLast
      have base := (expandPart_append_ok noStep readsStep accepted).2.2
      have := ordered_of_expandBase readsFirst readsLast base
      omega

/-! Items of the minutes -/

theorem Field.range?_isSome {field : Field} {first last step : Nat}
    (ranged : (field.range? first last step).isSome) :
    1 ≤ step ∧ first ≤ field.greatest ∧ last ≤ field.greatest := by
  unfold range? at ranged
  split at ranged
  · cases ranged
  · omega

theorem plainNumber?_of_readTerm? {n : Nat} (reads : Field.minute.readTerm? text = some n) :
    plainNumber? text = some n := by
  rcases Field.readTerm?_cases reads with ⟨number, numbered, rfl⟩ | ⟨word, listed, _⟩
  · exact numbered
  · cases listed

/-- An item that the minutes allow and that does not exceed the field grammar is one of its parts. -/
theorem Field.Reads.exists_part (reads : Field.minute.Reads item)
    (within : ¬ Exceeds secondsBounds item) :
    ∃ part : Part, part.Writes item ∧ part.Fits secondsBounds := by
  have limit : Field.minute.greatest = 59 := rfl
  have least : secondsBounds.min = 0 := rfl
  have most : secondsBounds.max = 59 := rfl
  cases reads with
  | star => exact ⟨_, .star, trivial⟩
  | lastDay ofMonth => cases ofMonth
  | @value _ n reads _ greatest =>
      have reads := plainNumber?_of_readTerm? reads
      exact ⟨_, .single reads, by simp only [Part.Fits]; omega⟩
  | @range firstText lastText first last readsFirst readsLast ranged =>
      have readsFirst := plainNumber?_of_readTerm? readsFirst
      have readsLast := plainNumber?_of_readTerm? readsLast
      have bounds := Field.range?_isSome ranged
      have ordered : first ≤ last :=
        Nat.not_lt.mp fun wraps => within (.wrapped readsFirst readsLast wraps)
      exact ⟨_, .range readsFirst readsLast, by simp only [Part.Fits]; omega⟩
  | @starStep stepText step readsStep ranged =>
      have bounds := Field.range?_isSome ranged
      have short : (step : Int) ≤ secondsBounds.max :=
        Int.not_lt.mp fun long => within (@Exceeds.longStep _ ['*'] _ _ (by decide) readsStep long)
      exact ⟨_, .starStep readsStep, by simp only [Part.Fits]; omega⟩
  | valueStep readsFirst readsStep =>
      exact absurd (.valueStep (plainNumber?_of_readTerm? readsFirst) readsStep) within
  | @rangeStep firstText lastText stepText first last step readsFirst readsLast readsStep ranged =>
      have readsFirst := plainNumber?_of_readTerm? readsFirst
      have readsLast := plainNumber?_of_readTerm? readsLast
      have bounds := Field.range?_isSome ranged
      have ordered : first ≤ last :=
        Nat.not_lt.mp fun wraps => within (.wrappedStep readsFirst readsLast wraps readsStep)
      have short : (step : Int) ≤ secondsBounds.max := Int.not_lt.mp fun long =>
        within (.longStep (slash_not_mem_range readsFirst readsLast) readsStep long)
      exact ⟨_, .rangeStep readsFirst readsLast readsStep, by simp only [Part.Fits]; omega⟩

/-! Fields -/

/-- The text of an expression that has stars only behind its first field. -/
theorem unwords_stars (text : List Char) :
    text ++ " * * * *".toList = Text.unwords (text :: List.replicate 4 ['*']) ∧
      text ++ " * * * * *".toList = Text.unwords (text :: List.replicate 5 ['*']) := by
  simp only [List.replicate, Text.unwords_cons_cons, Text.unwords_singleton]
  exact ⟨rfl, rfl⟩

theorem areWords_stars (isWord : Text.IsWord text) (count : Nat) :
    ∀ word ∈ text :: List.replicate count ['*'], Text.IsWord word := by
  refine List.forall_mem_cons.mpr ⟨isWord, fun word member => ?_⟩
  rw [List.eq_of_mem_replicate member]
  exact (writtenAs_star .minute).isWord

theorem exists_writtenAs_minute (isWord : Text.IsWord text)
    (accepted : ∃ values, expandField secondsBounds text = .ok values) :
    ∃ parts, WrittenAs .minute text parts := by
  obtain ⟨values, accepted⟩ := accepted
  obtain ⟨parts, written, _⟩ := expandField_ok isWord.2 accepted
  exact ⟨parts, written⟩

theorem isValid_of_writtenAs_minute (isWord : Text.IsWord text) {parts : List Part}
    (written : WrittenAs .minute text parts) : IsValid (text ++ " * * * *".toList) none := by
  have areWords := areWords_stars isWord 4
  rw [(unwords_stars text).1]
  refine (isValid_unwords_iff areWords rfl).mpr ⟨?_, ?_⟩
  · refine firstOperator?_of_writtenAs ?_
    rw [Text.words_unwords areWords]
    refine List.forall_mem_cons.mpr ⟨⟨_, _, written⟩, fun word member => ?_⟩
    rw [List.eq_of_mem_replicate member]
    exact ⟨.hour, _, writtenAs_star _⟩
  · rw [Timetable.ofText?, Text.words_unwords areWords]
    exact ⟨_, congrArg some (Timetable.ofFields_of_writtenAs written (writtenAs_star _)
      (writtenAs_star _) (writtenAs_star _) (writtenAs_star _))⟩

theorem reads_of_isValid_minute (isWord : Text.IsWord text)
    (valid : IsValid (text ++ " * * * *".toList) none)
    (notChance : (Text.lower text).head? ≠ some 'r') :
    ∀ item ∈ Text.splitAt ',' text, Field.minute.Reads item := by
  have areWords := areWords_stars isWord 4
  rw [(unwords_stars text).1] at valid
  obtain ⟨_, table, read⟩ := (isValid_unwords_iff areWords rfl).mp valid
  have placed : (Field.minute, text) ∈
      Field.all.zip (Text.words (Text.unwords (text :: List.replicate 4 ['*']))) := by
    rw [Text.words_unwords areWords]
    exact List.mem_cons_self
  obtain ⟨spread, spreadRead⟩ := exists_spread_of_ofText? read _ placed
  obtain ⟨_, ofDays⟩ | ⟨chance, _⟩ | forms := Field.spread_cases spreadRead
  · rcases ofDays with ofMonth | ofWeek
    · cases ofMonth
    · cases ofWeek
  · exact absurd chance notChance
  · have reads : ∀ item ∈ Text.splitAt ',' (Text.lower text), Field.minute.Reads item := by
      intro item member
      rcases forms item member with reads | ⟨ofWeek, _⟩
      · exact reads
      · cases ofWeek
    -- What is read has no letters, so it was not changed where it was brought to lower case.
    have below : ∀ c ∈ Text.lower text, c.toNat < 65 := by
      intro c member
      rcases @Text.exists_piece_of_mem ',' c _ member with rfl | ⟨item, cut, inItem⟩
      · decide
      · obtain ⟨_, ofMonth⟩ | chars := (reads item cut).itemChars
        · cases ofMonth
        · have isPart : isPartChar c = true := by
            simpa [Field.isItemChar, Field.words] using chars c inItem
          exact toNat_lt_of_isPartChar isPart
    exact Text.eq_of_lower_of_forall_lt rfl below ▸ reads

/-- The seconds may be what the minutes may be, but for values left to chance and items that exceed
the field grammar. -/
theorem isValid_seconds_iff (isWord : Text.IsWord text) :
    IsValid (text ++ " * * * * *".toList) none ↔
      IsValid (text ++ " * * * *".toList) none ∧ (Text.lower text).head? ≠ some 'r' ∧
        ∀ item ∈ Text.splitAt ',' text, ¬ Exceeds secondsBounds item := by
  have stars : IsValid (Text.unwords (List.replicate 5 ['*'])) none := by decide
  rw [(unwords_stars text).2, isValid_unwords_cons_iff (areWords_stars isWord 5) rfl,
    and_iff_left stars]
  constructor
  · intro accepted
    obtain ⟨parts, written⟩ := exists_writtenAs_minute isWord accepted
    refine ⟨isValid_of_writtenAs_minute isWord written, fun chance => ?_,
      fun item member exceeds => ?_⟩
    · rw [lower_of_partChars written.chars] at chance
      rcases written.chars 'r' (List.mem_of_head? chance) with comma | isPart
      · exact absurd comma (by decide)
      · exact absurd isPart (by decide)
    · obtain ⟨values, accepted⟩ := (exists_expandField_iff isWord.2).mp accepted item member
      exact exceeds.not_accepted accepted
  · intro allowed
    obtain ⟨valid, notChance, within⟩ := allowed
    have reads := reads_of_isValid_minute isWord valid notChance
    refine (exists_expandField_iff isWord.2).mpr fun item member => ?_
    obtain ⟨part, writes, fits⟩ := (reads item member).exists_part (within item member)
    exact ⟨_, expandPart_eq_ok_iff.mpr ⟨part, writes, fits, rfl⟩⟩

theorem isValid_seconds_iff_wrapped :
    IsValid ("10-20/5,7".toList ++ " * * * *".toList) none ∧
      IsValid ("0,50-10".toList ++ " * * * *".toList) none ∧
        ¬ IsValid ("0,50-10".toList ++ " * * * * *".toList) none := by
  have proper : Text.IsWord "10-20/5,7".toList := by decide
  have wrapped : Text.IsWord "0,50-10".toList := by decide
  refine ⟨((isValid_seconds_iff proper).mp (by decide)).1, by decide,
    fun valid => ?_⟩
  have within := ((isValid_seconds_iff wrapped).mp valid).2.2
  have fifty : plainNumber? "50".toList = some 50 := by decide
  have ten : plainNumber? "10".toList = some 10 := by decide
  exact within "50-10".toList (by decide) (.wrapped fifty ten (by decide))

theorem isValid_minute_not_seconds :
    ¬ ∀ text, Text.IsWord text →
      (IsValid (text ++ " * * * * *".toList) none ↔ IsValid (text ++ " * * * *".toList) none) := by
  intro same
  have refused : ¬ IsValid ("50-10".toList ++ " * * * * *".toList) none := by decide
  have wrapped : Text.IsWord "50-10".toList := by decide
  exact refused ((same _ wrapped).mpr (by decide))

end Recurrence.Crontab
