import Recurrence.Proofs.Crontab.FieldLanguage

namespace Recurrence.Crontab

/-! Everything that may become of a field: its values, a fault that it is refused for, or a number
with more digits than are read. A field is read from left to right, and of every part the step comes
first, so a long number ends the reading only where nothing before it was wrong. -/

variable {bounds : Bounds} {text base item field : List Char} {part : Part} {parts : List Part}
  {items : List (List Char)} {fault : FieldFault} {tooLong : Text.NumeralTooLong}

/-- What a part is written as besides its step, when that is in order. -/
inductive HasBase (bounds : Bounds) : List Char → List Char → Prop
  | whole {text : List Char} (noStep : '/' ∉ text) : HasBase bounds text text
  | stepped {base stepText : List Char} {step : Nat} (noStep : '/' ∉ base)
      (reads : plainNumber? stepText = some step) (positive : 1 ≤ step)
      (bounded : (step : Int) ≤ bounds.max) (ranged : base = ['*'] ∨ '-' ∈ base) :
      HasBase bounds (base ++ '/' :: stepText) base

/-- The long number at which the reading of a part ends. -/
inductive PartEndsAt (bounds : Bounds) : List Char → Text.NumeralTooLong → Prop
  | step {base stepText : List Char} (noStep : '/' ∉ base) (long : IsLongNumeral stepText) :
      PartEndsAt bounds (base ++ '/' :: stepText) ⟨stepText.length⟩
  | first {text firstText lastText : List Char}
      (hasBase : HasBase bounds text (firstText ++ '-' :: lastText))
      (long : IsLongNumeral firstText) : PartEndsAt bounds text ⟨firstText.length⟩
  | last {text firstText lastText : List Char} {first : Nat}
      (hasBase : HasBase bounds text (firstText ++ '-' :: lastText))
      (reads : plainNumber? firstText = some first) (long : IsLongNumeral lastText) :
      PartEndsAt bounds text ⟨lastText.length⟩
  | single {text : List Char} (long : IsLongNumeral text) : PartEndsAt bounds text ⟨text.length⟩

/-- The long number at which the reading of a field ends. In a list, all parts in front of it are in
order. -/
inductive FieldEndsAt (bounds : Bounds) (field : List Char) : Text.NumeralTooLong → Prop
  | alone {tooLong : Text.NumeralTooLong} (noComma : ',' ∉ field)
      (ends : PartEndsAt bounds field tooLong) : FieldEndsAt bounds field tooLong
  | listed {front behind : List (List Char)} {item : List Char} {tooLong : Text.NumeralTooLong}
      (comma : ',' ∈ field) (items : Text.splitAt ',' field = front ++ item :: behind)
      (inOrder : ∀ earlier ∈ front, ∃ part : Part, part.SpellsAmidBlanks earlier ∧
        ¬ HasLongNumeral earlier ∧ part.Fits bounds)
      (ends : PartEndsAt bounds (Text.trim item) tooLong) : FieldEndsAt bounds field tooLong

/-! Parts -/

theorem IsLongNumeral.not_mem (long : IsLongNumeral text) {c : Char}
    (other : Text.isPlainDigit c = false) : c ∉ text :=
  long.1.not_mem other

theorem hasBase_iff : HasBase bounds text base ↔ ∃ step, readStep bounds text = .ok (base, step) := by
  constructor
  · intro hasBase
    cases hasBase with
    | whole noStep => exact ⟨1, readStep_of_not_mem noStep⟩
    | stepped noStep reads positive bounded ranged =>
        exact ⟨_, readStep_append noStep reads positive bounded ranged⟩
  · rintro ⟨step, read⟩
    rcases readStep_ok read with ⟨noStep, rfl, _⟩ |
      ⟨stepText, n, rfl, noStep, reads, _, positive, bounded, ranged⟩
    · exact .whole noStep
    · exact .stepped noStep reads positive bounded ranged

theorem readStep_append_eq_tooLong_iff (bounds : Bounds) {stepText : List Char}
    (noStep : '/' ∉ base) :
    readStep bounds (base ++ '/' :: stepText) = .error (.numeralTooLong tooLong) ↔
      IsLongNumeral stepText ∧ tooLong = ⟨stepText.length⟩ := by
  rw [← readNumber_eq_tooLong_iff (bounds.label ++ " step".toList), readStep,
    Text.splitFirst?_append '/' noStep]
  cases number : readNumber (bounds.label ++ " step".toList) stepText with
  | error fault => simp only [number, Except.error.injEq]
  | ok step =>
      simp only [number]
      repeat' split
      all_goals simp

theorem expandBase_range_eq_tooLong_iff {firstText lastText : List Char} {step : Int}
    (noHyphen : '-' ∉ firstText) :
    expandBase bounds (firstText ++ '-' :: lastText) step = .error (.numeralTooLong tooLong) ↔
      IsLongNumeral firstText ∧ tooLong = ⟨firstText.length⟩ ∨
        (∃ first, plainNumber? firstText = some first) ∧
          IsLongNumeral lastText ∧ tooLong = ⟨lastText.length⟩ := by
  have notStar : firstText ++ '-' :: lastText ≠ ['*'] := by
    intro star
    exact absurd (star ▸ by simp : '-' ∈ ['*']) (by decide)
  have readable : (∃ first, plainNumber? firstText = some first) ↔
      ∃ first, readNumber bounds.label firstText = .ok first := by
    simp only [readNumber_eq_ok_iff]
    exact ⟨fun ⟨n, reads⟩ => ⟨n, n, reads, rfl⟩, fun ⟨_, n, reads, _⟩ => ⟨n, reads⟩⟩
  rw [readable, ← readNumber_eq_tooLong_iff bounds.label,
    ← readNumber_eq_tooLong_iff bounds.label, expandBase, if_neg notStar,
    Text.splitFirst?_append '-' noHyphen]
  cases readFirst : readNumber bounds.label firstText with
  | error fault => simp [readFirst]
  | ok first =>
      cases readLast : readNumber bounds.label lastText with
      | error fault => simp [readFirst, readLast]
      | ok last =>
          simp only [readFirst, readLast]
          split <;> simp

theorem expandBase_single_eq_tooLong_iff {step : Int} (notStar : base ≠ ['*'])
    (noHyphen : '-' ∉ base) :
    expandBase bounds base step = .error (.numeralTooLong tooLong) ↔
      IsLongNumeral base ∧ tooLong = ⟨base.length⟩ := by
  rw [← readNumber_eq_tooLong_iff bounds.label, expandBase, if_neg notStar,
    Text.splitFirst?_eq_none_iff.mpr noHyphen]
  cases readNumber bounds.label base with
  | error fault => simp
  | ok value =>
      simp only
      split <;> simp

theorem endsAt_of_expandBase {step : Int} (hasBase : HasBase bounds text base)
    (ends : expandBase bounds base step = .error (.numeralTooLong tooLong)) :
    PartEndsAt bounds text tooLong := by
  have notStar : base ≠ ['*'] := by
    rintro rfl
    rw [expandBase_star] at ends
    cases ends
  by_cases hyphen : '-' ∈ base
  · obtain ⟨firstText, lastText, rfl, noHyphen⟩ := List.eq_append_cons_of_mem hyphen
    rcases (expandBase_range_eq_tooLong_iff noHyphen).mp ends with
      ⟨long, rfl⟩ | ⟨⟨first, reads⟩, long, rfl⟩
    · exact .first hasBase long
    · exact .last hasBase reads long
  · obtain ⟨long, rfl⟩ := (expandBase_single_eq_tooLong_iff notStar hyphen).mp ends
    cases hasBase with
    | whole noStep => exact .single long
    | stepped noStep reads positive bounded ranged =>
        exact absurd (ranged.resolve_left notStar) hyphen

theorem expandPart_eq_tooLong_iff :
    expandPart bounds text = .error (.numeralTooLong tooLong) ↔ PartEndsAt bounds text tooLong := by
  constructor
  · intro ends
    have nonempty : text ≠ [] := by
      rintro rfl
      simp [expandPart] at ends
    cases read : readStep bounds text with
    | error fault =>
        simp only [expandPart, nonempty, if_false, read, Except.error.injEq] at ends
        subst ends
        by_cases slash : '/' ∈ text
        · obtain ⟨base, stepText, rfl, noStep⟩ := List.eq_append_cons_of_mem slash
          obtain ⟨long, rfl⟩ := (readStep_append_eq_tooLong_iff _ noStep).mp read
          exact .step noStep long
        · rw [readStep_of_not_mem slash] at read
          cases read
    | ok found =>
        rw [expandPart_of_readStep nonempty read] at ends
        exact endsAt_of_expandBase (hasBase_iff.mpr ⟨_, read⟩) ends
  · have ofBase {text base : List Char} (hasBase : HasBase bounds text base) (nonempty : base ≠ []) :
        ∃ step, expandPart bounds text = expandBase bounds base step := by
      obtain ⟨step, read⟩ := hasBase_iff.mp hasBase
      refine ⟨step, expandPart_of_readStep ?_ read⟩
      cases hasBase with
      | whole => exact nonempty
      | stepped => simp
    intro ends
    cases ends with
    | step noStep long =>
        have read := (readStep_append_eq_tooLong_iff bounds noStep).mpr ⟨long, rfl⟩
        simp [expandPart, read]
    | first hasBase long =>
        obtain ⟨step, same⟩ := ofBase hasBase (by simp)
        rw [same, expandBase_range_eq_tooLong_iff (long.not_mem (by decide))]
        exact Or.inl ⟨long, rfl⟩
    | last hasBase reads long =>
        obtain ⟨step, same⟩ := ofBase hasBase (by simp)
        rw [same, expandBase_range_eq_tooLong_iff (not_mem_of_plainNumber? reads (by decide))]
        exact Or.inr ⟨⟨_, reads⟩, long, rfl⟩
    | single long =>
        obtain ⟨step, same⟩ := ofBase (.whole (long.not_mem (by decide))) long.1.1
        rw [same, expandBase_single_eq_tooLong_iff _ (long.not_mem (by decide))]
        · exact ⟨long, rfl⟩
        · rintro rfl
          exact long.not_mem (c := '*') (by decide) List.mem_cons_self

/-! Fields -/

theorem expandParts_eq_error_iff :
    expandParts bounds items = .error fault ↔
      ∃ front item behind, items = front ++ item :: behind ∧
        (∀ earlier ∈ front, ∃ values, expandPart bounds (Text.trim earlier) = .ok values) ∧
        expandPart bounds (Text.trim item) = .error fault := by
  induction items with
  | nil => simp [expandParts]
  | cons first others ih =>
      rw [expandParts]
      constructor
      · intro refused
        cases head : expandPart bounds (Text.trim first) with
        | error inFirst =>
            simp only [head, Except.error.injEq] at refused
            exact ⟨[], first, others, rfl, List.forall_mem_nil _, head.trans (congrArg _ refused)⟩
        | ok values =>
            have rest : expandParts bounds others = .error fault := by
              cases further : expandParts bounds others <;> simp_all
            obtain ⟨front, item, behind, rfl, accepted, refusedItem⟩ := ih.mp rest
            refine ⟨first :: front, item, behind, rfl, ?_, refusedItem⟩
            exact List.forall_mem_cons.mpr ⟨⟨values, head⟩, accepted⟩
      · rintro ⟨front, item, behind, whole, accepted, refused⟩
        cases front with
        | nil =>
            cases whole
            simp only [refused]
        | cons earlier front =>
            cases whole
            obtain ⟨⟨values, head⟩, acceptedFront⟩ := List.forall_mem_cons.mp accepted
            simp only [head, ih.mpr ⟨front, item, behind, rfl, acceptedFront, refused⟩]

theorem exists_expandPart_trim_iff :
    (∃ values, expandPart bounds (Text.trim item) = .ok values) ↔
      ∃ part : Part, part.SpellsAmidBlanks item ∧ ¬ HasLongNumeral item ∧ part.Fits bounds := by
  simp only [expandPart_eq_ok_iff, Part.writes_trim_iff]
  constructor
  · rintro ⟨_, part, ⟨spells, short⟩, fits, rfl⟩
    exact ⟨part, spells, short, fits⟩
  · rintro ⟨part, spells, short, fits⟩
    exact ⟨_, part, ⟨spells, short⟩, fits, rfl⟩

theorem expandField_eq_tooLong_iff :
    expandField bounds field = .error (.numeralTooLong tooLong) ↔
      FieldEndsAt bounds field tooLong := by
  unfold expandField
  by_cases comma : ',' ∈ field
  · rw [if_pos (by simpa using comma), map_eq_error_iff, expandParts_eq_error_iff]
    simp only [exists_expandPart_trim_iff, expandPart_eq_tooLong_iff]
    constructor
    · rintro ⟨front, item, behind, items, inOrder, ends⟩
      exact .listed comma items inOrder ends
    · intro ends
      cases ends with
      | alone noComma => exact absurd comma noComma
      | listed _ items inOrder ends => exact ⟨_, _, _, items, inOrder, ends⟩
  · rw [if_neg (by simpa using comma), expandPart_eq_tooLong_iff]
    constructor
    · exact .alone comma
    · intro ends
      cases ends with
      | alone _ ends => exact ends
      | listed isList => exact absurd isList comma

theorem FieldEndsAt.hasLongNumeral (ends : FieldEndsAt bounds field tooLong) :
    HasLongNumeral field :=
  (isIn_of_expandField (expandField_eq_tooLong_iff.mpr ends)).hasLongNumeral

/-- If a part of the language fits, then nothing in front of its first long number ends its
reading. -/
theorem Part.Spells.exists_endsAt (spells : part.Spells text) (fits : part.Fits bounds)
    (long : HasLongNumeral text) : ∃ tooLong, PartEndsAt bounds text tooLong := by
  have orReads {n : Nat} {numberText : List Char} (numeral : IsNumeralOf n numberText) :
      IsLongNumeral numberText ∨ plainNumber? numberText = some n := by
    rcases Nat.lt_or_ge Text.maxDigits numberText.length with tooMany | short
    · exact Or.inl ⟨numeral.1, tooMany⟩
    · exact Or.inr (plainNumber?_eq_some_iff.mpr ⟨numeral, short⟩)
  have noSlash {firstText lastText : List Char} {first last : Nat}
      (writesFirst : IsNumeralOf first firstText) (writesLast : IsNumeralOf last lastText) :
      '/' ∉ firstText ++ '-' :: lastText := by
    simp [writesFirst.1.not_mem (c := '/') (by decide), writesLast.1.not_mem (c := '/') (by decide)]
  have ofRange {firstText lastText : List Char} {first last : Nat}
      (hasBase : HasBase bounds text (firstText ++ '-' :: lastText))
      (writesFirst : IsNumeralOf first firstText) (writesLast : IsNumeralOf last lastText)
      (long : HasLongNumeral (firstText ++ '-' :: lastText)) :
      ∃ tooLong, PartEndsAt bounds text tooLong := by
    rcases orReads writesFirst with longFirst | readsFirst
    · exact ⟨_, .first hasBase longFirst⟩
    · rcases orReads writesLast with longLast | readsLast
      · exact ⟨_, .last hasBase readsFirst longLast⟩
      · exact absurd long (Part.writes_iff.mp (.range readsFirst readsLast)).2
  cases spells with
  | star => exact absurd long (Part.writes_iff.mp .star).2
  | starStep writesStep =>
      rcases orReads writesStep with longStep | reads
      · exact ⟨_, .step (by decide : '/' ∉ ['*']) longStep⟩
      · exact absurd long (Part.writes_iff.mp (.starStep reads)).2
  | range writesFirst writesLast =>
      exact ofRange (.whole (noSlash writesFirst writesLast)) writesFirst writesLast long
  | rangeStep writesFirst writesLast writesStep =>
      have noStep := noSlash writesFirst writesLast
      rcases orReads writesStep with longStep | reads
      · exact ⟨_, .step noStep longStep⟩
      · have shortStep := (plainNumber?_eq_some_iff_not_long.mp reads).2
        rw [hasLongNumeral_append_cons_iff (by decide), or_iff_left shortStep] at long
        exact ofRange (.stepped noStep reads fits.2.1 fits.2.2 (Or.inr (by simp))) writesFirst
          writesLast long
  | single writes =>
      rcases orReads writes with longSingle | reads
      · exact ⟨_, .single longSingle⟩
      · exact absurd long (Part.writes_iff.mp (.single reads)).2

theorem Lists.exists_endsAt (lists : Lists parts field) (fits : ∀ part ∈ parts, part.Fits bounds)
    (long : HasLongNumeral field) : ∃ tooLong, FieldEndsAt bounds field tooLong := by
  classical
  by_cases comma : ',' ∈ field
  · -- The first item with a long number is where the reading ends.
    have spell := (lists_iff_of_comma comma).mp lists
    have longItems := (hasLongNumeral_splitAt_iff _).mp long
    obtain ⟨item, found⟩ := Option.isSome_iff_exists.mp
      (List.find?_isSome (p := (HasLongNumeral ·)).mpr (by simpa using longItems))
    obtain ⟨longItem, front, behind, items, shortFront⟩ := List.find?_eq_some_iff_append.mp found
    have inOrder : ∀ earlier ∈ front, ∃ part : Part, part.SpellsAmidBlanks earlier ∧
        ¬ HasLongNumeral earlier ∧ part.Fits bounds := by
      intro earlier member
      have listed : earlier ∈ Text.splitAt ',' field := items ▸ List.mem_append_left _ member
      obtain ⟨part, isPart, spells⟩ := exists_left_of_forall₂ spell listed
      exact ⟨part, spells, by simpa using shortFront earlier member, fits part isPart⟩
    obtain ⟨part, isPart, before, text, after, rfl, blankBefore, blankAfter, spells⟩ :=
      exists_left_of_forall₂ spell (items ▸ List.mem_append_right front List.mem_cons_self)
    rw [decide_eq_true_eq, hasLongNumeral_amidBlanks_iff blankBefore blankAfter] at longItem
    obtain ⟨tooLong, ends⟩ := spells.exists_endsAt (fits part isPart) longItem
    refine ⟨tooLong, .listed comma items inOrder ?_⟩
    rwa [Text.trim_of_margins blankBefore blankAfter, Text.trim_of_solid spells.solid]
  · obtain ⟨part, rfl, spells⟩ := (lists_iff_of_no_comma comma).mp lists
    obtain ⟨tooLong, ends⟩ := spells.exists_endsAt (fits part List.mem_cons_self) long
    exact ⟨tooLong, .alone comma ends⟩

/-- The reading of a field ends at a long number exactly where that number is reached. If it does
not, then the field is expanded exactly if it is of the language and its parts fit, to the values
that they denote in ascending order, and it is refused for a fault of the field otherwise. -/
theorem expandField_outcomes (bounds : Bounds) (field : List Char) :
    (∀ tooLong, expandField bounds field = .error (.numeralTooLong tooLong) ↔
        FieldEndsAt bounds field tooLong) ∧
      (∀ tooLong, FieldEndsAt bounds field tooLong → HasLongNumeral field) ∧
      ((∀ tooLong, ¬ FieldEndsAt bounds field tooLong) →
        (∀ values, expandField bounds field = .ok values ↔
          ∃ parts, Lists parts field ∧ DenotesValues bounds parts values) ∧
        ((∃ fault, expandField bounds field = .error fault ∧
            ∀ tooLong, fault ≠ .numeralTooLong tooLong) ↔
          ¬ ∃ parts, Lists parts field ∧ ∀ part ∈ parts, part.Fits bounds)) ∧
      ∀ values, expandField bounds field = .ok values →
        ∀ value ∈ values, bounds.min ≤ value ∧ value ≤ bounds.max := by
  refine ⟨fun tooLong => expandField_eq_tooLong_iff, fun tooLong => FieldEndsAt.hasLongNumeral,
    fun readable => ?_, fun values accepted value member => ?_⟩
  · have short {parts : List Part} (lists : Lists parts field)
        (fits : ∀ part ∈ parts, part.Fits bounds) : ¬ HasLongNumeral field := by
      intro long
      obtain ⟨tooLong, ends⟩ := lists.exists_endsAt fits long
      exact readable tooLong ends
    have accepts (values : List Int) : expandField bounds field = .ok values ↔
        ∃ parts, Lists parts field ∧ DenotesValues bounds parts values := by
      rw [expandField_eq_ok_iff]
      refine ⟨And.right, fun denoted => ⟨?_, denoted⟩⟩
      obtain ⟨parts, lists, fits, _⟩ := denoted
      exact short lists fits
    refine ⟨accepts, ?_, fun outside => ?_⟩
    · rintro ⟨fault, refused, _⟩ ⟨parts, lists, fits⟩
      obtain ⟨values, denoted⟩ := exists_denotesValues fits
      rw [(accepts values).mpr ⟨parts, lists, denoted⟩] at refused
      cases refused
    · cases expanded : expandField bounds field with
      | ok values =>
          obtain ⟨parts, lists, fits, _⟩ := (accepts values).mp expanded
          exact absurd ⟨parts, lists, fits⟩ outside
      | error fault =>
          refine ⟨fault, rfl, fun tooLong same => readable tooLong ?_⟩
          exact expandField_eq_tooLong_iff.mp (expanded.trans (congrArg _ same))
  · obtain ⟨_, parts, _, fits, _, denoted⟩ := expandField_eq_ok_iff.mp accepted
    obtain ⟨part, isPart, denotes⟩ := (denoted value).mp member
    exact denotes.within (fits part isPart)

/-- Zero, written with one digit more than are read. -/
def longZero : List Char := List.replicate 4301 '0'

theorem longZero_isNumeral : IsNumeralOf 0 longZero := by
  have digits : IsDigits longZero := by
    refine ⟨by decide, fun c member => ?_⟩
    rw [List.eq_of_mem_replicate member]
    decide
  have value (count : Nat) : Nat.ofDigitChars 10 (List.replicate count '0') 0 = 0 := by
    induction count with
    | zero => rfl
    | succ count ih => exact ih
  exact ⟨digits, value 4301⟩

theorem longZero_endsAt : FieldEndsAt Field.minute.bounds longZero ⟨4301⟩ := by
  have length : longZero.length = 4301 := List.length_replicate
  have long : IsLongNumeral longZero := ⟨longZero_isNumeral.1, by rw [length]; decide⟩
  exact .alone (long.not_mem (by decide)) (length ▸ .single long)

theorem expandField_outcomes_minutes :
    (∃ parts, Lists parts " 07 ,*/20,50-55/5".toList ∧
        DenotesValues Field.minute.bounds parts [0, 7, 20, 40, 50, 55]) ∧
      (∀ value ∈ [0, 7, 20, 40, 50, 55], (0 : Int) ≤ value ∧ value ≤ 59) ∧
      expandField Field.minute.bounds longZero = .error (.numeralTooLong ⟨4301⟩) ∧
      HasLongNumeral longZero := by
  obtain ⟨_, ends, reads, within⟩ :=
    expandField_outcomes Field.minute.bounds " 07 ,*/20,50-55/5".toList
  obtain ⟨endsLong, long, _⟩ := expandField_outcomes Field.minute.bounds longZero
  have expanded : expandField Field.minute.bounds " 07 ,*/20,50-55/5".toList =
      .ok [0, 7, 20, 40, 50, 55] := by decide
  have readable (tooLong : Text.NumeralTooLong) :
      ¬ FieldEndsAt Field.minute.bounds " 07 ,*/20,50-55/5".toList tooLong := by
    intro endsThere
    obtain ⟨digits, within, _, tooMany⟩ := ends tooLong endsThere
    exact absurd (tooMany.trans_le within.length_le) (by decide)
  exact ⟨((reads readable).1 _).mp expanded, within _ expanded, (endsLong _).mpr longZero_endsAt,
    long _ longZero_endsAt⟩

theorem longZero_unread : ¬ ∀ bounds field, (∃ parts, Lists parts field ∧
    ∀ part ∈ parts, part.Fits bounds) → ∃ values, expandField bounds field = .ok values := by
  intro accepts
  obtain ⟨values, expanded⟩ := accepts Field.minute.bounds longZero
    ⟨[.single 0], .alone (.single longZero_isNumeral),
      List.forall_mem_singleton.mpr ⟨by decide, by decide⟩⟩
  rw [expandField_eq_tooLong_iff.mpr longZero_endsAt] at expanded
  cases expanded

end Recurrence.Crontab
