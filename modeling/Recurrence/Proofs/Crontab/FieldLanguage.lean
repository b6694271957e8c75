import Mathlib.Data.List.Sort
import Recurrence.Proofs.Crontab.Extensions
import Recurrence.Proofs.Crontab.Verdicts
import Recurrence.Proofs.Text.Spaces

namespace Recurrence.Crontab

/-! The language of the field grammar, with numbers of any length, and the values that its texts
denote. A text of the language is expanded exactly if none of its numbers is too long to be read,
and the expansion ends for another reason than a fault of the field only at such a number. -/

/-- Digits, as many as one likes, that write a number. Zeros may stand in front. -/
def IsNumeralOf (n : Nat) (text : List Char) : Prop :=
  IsDigits text ∧ Nat.ofDigitChars 10 text 0 = n

namespace Part

/-- The texts that a part may be written as, whatever the length of its numbers. -/
inductive Spells : Part → List Char → Prop
  | star : Spells .star ['*']
  | starStep {step : Nat} {stepText : List Char} (writes : IsNumeralOf step stepText) :
      Spells (.starStep step) ('*' :: '/' :: stepText)
  | range {first last : Nat} {firstText lastText : List Char}
      (writesFirst : IsNumeralOf first firstText) (writesLast : IsNumeralOf last lastText) :
      Spells (.range first last) (firstText ++ '-' :: lastText)
  | rangeStep {first last step : Nat} {firstText lastText stepText : List Char}
      (writesFirst : IsNumeralOf first firstText) (writesLast : IsNumeralOf last lastText)
      (writesStep : IsNumeralOf step stepText) :
      Spells (.rangeStep first last step) ((firstText ++ '-' :: lastText) ++ '/' :: stepText)
  | single {value : Nat} {text : List Char} (writes : IsNumeralOf value text) :
      Spells (.single value) text

/-- The numbers that a part denotes in a field with the given bounds. -/
def Denotes (bounds : Bounds) : Part → Int → Prop
  | .star, value => bounds.min ≤ value ∧ value ≤ bounds.max
  | .starStep step, value => ∃ place : Nat, value = bounds.min + step * place ∧ value ≤ bounds.max
  | .range first last, value => (first : Int) ≤ value ∧ value ≤ last
  | .rangeStep first last step, value => ∃ place : Nat, value = first + step * place ∧ value ≤ last
  | .single n, value => value = n

def SpellsAmidBlanks (part : Part) (item : List Char) : Prop :=
  ∃ before text behind, item = before ++ text ++ behind ∧ (∀ c ∈ before, Text.isBlank c = true) ∧
    (∀ c ∈ behind, Text.isBlank c = true) ∧ part.Spells text

end Part

/-- Fields as lists of parts: a part alone, or at least two between commas, where blanks may stand
around each of them. -/
inductive Lists : List Part → List Char → Prop
  | alone {part : Part} {text : List Char} (spells : part.Spells text) : Lists [part] text
  | several {parts : List Part} {items : List (List Char)} (several : 2 ≤ items.length)
      (spell : List.Forall₂ Part.SpellsAmidBlanks parts items) :
      Lists parts ([','].intercalate items)

variable {bounds : Bounds} {text item : List Char} {part : Part} {values : List Int}

/-! Numbers -/

theorem plainNumber?_eq_some_iff {n : Nat} :
    plainNumber? text = some n ↔ IsNumeralOf n text ∧ text.length ≤ Text.maxDigits := by
  unfold plainNumber? IsNumeralOf IsDigits
  by_cases digits : text ≠ [] ∧ text.all Text.isPlainDigit = true
  · have areDigits := List.all_eq_true.mp digits.2
    rw [if_pos digits, ← Text.digitsValue_of_isPlainDigit areDigits, Text.readDigits]
    split
    · simp_all [Except.toOption]
    · simp_all [Except.toOption]
  · rw [if_neg digits]
    refine iff_of_false (Option.some_ne_none n ·.symm) fun numeral => digits ?_
    exact ⟨numeral.1.1.1, List.all_eq_true.mpr numeral.1.1.2⟩

/-- A number that is too long to be read. -/
def IsLongNumeral (text : List Char) : Prop :=
  IsDigits text ∧ Text.maxDigits < text.length

theorem readNumber_eq_tooLong_iff (label : List Char) {tooLong : Text.NumeralTooLong} :
    readNumber label text = .error (.numeralTooLong tooLong) ↔
      IsLongNumeral text ∧ tooLong = ⟨text.length⟩ := by
  unfold readNumber IsLongNumeral IsDigits Text.readDigits
  by_cases digits : text ≠ [] ∧ text.all Text.isPlainDigit = true
  · have areDigits := List.all_eq_true.mp digits.2
    rw [if_pos digits]
    by_cases short : text.length ≤ Text.maxDigits
    · simp [short]
    · simp only [if_neg short, Except.error.injEq, FieldFault.numeralTooLong.injEq]
      exact ⟨fun same => ⟨⟨⟨digits.1, areDigits⟩, Nat.not_le.mp short⟩, same.symm⟩,
        fun long => long.2.symm⟩
  · rw [if_neg digits]
    refine iff_of_false (by simp) fun long => digits ?_
    exact ⟨long.1.1.1, List.all_eq_true.mpr long.1.1.2⟩

/-! Long numbers inside of texts -/

theorem hasLongNumeral_digits_iff (digits : ∀ c ∈ text, Text.isPlainDigit c = true) :
    HasLongNumeral text ↔ Text.maxDigits < text.length := by
  constructor
  · rintro ⟨run, within, _, long⟩
    exact Nat.lt_of_lt_of_le long within.length_le
  · exact fun long => ⟨text, List.infix_rfl, digits, long⟩

/-- A character that is no digit parts the runs of digits on its two sides. -/
theorem hasLongNumeral_append_cons_iff {mark : Char} (noDigit : Text.isPlainDigit mark = false)
    (before behind : List Char) :
    HasLongNumeral (before ++ mark :: behind) ↔ HasLongNumeral before ∨ HasLongNumeral behind := by
  have absent {run : List Char} (digits : ∀ c ∈ run, Text.isPlainDigit c = true) : mark ∉ run := by
    intro member
    rw [digits mark member] at noDigit
    cases noDigit
  constructor
  · rintro ⟨run, within, digits, long⟩
    exact ((Text.infix_append_cons_iff (absent digits) before behind).mp within).imp
      (⟨run, ·, digits, long⟩) (⟨run, ·, digits, long⟩)
  · rintro (⟨run, within, digits, long⟩ | ⟨run, within, digits, long⟩)
    · exact ⟨run, within.trans (List.prefix_append _ _).isInfix, digits, long⟩
    · exact ⟨run, within.trans ((List.suffix_cons _ _).trans (List.suffix_append _ _)).isInfix,
        digits, long⟩

theorem not_hasLongNumeral_nil : ¬ HasLongNumeral [] := by
  rw [hasLongNumeral_digits_iff (by simp)]
  decide

theorem hasLongNumeral_cons_iff {mark : Char} (noDigit : Text.isPlainDigit mark = false)
    (behind : List Char) : HasLongNumeral (mark :: behind) ↔ HasLongNumeral behind :=
  (hasLongNumeral_append_cons_iff noDigit [] behind).trans (or_iff_right not_hasLongNumeral_nil)

theorem isPlainDigit_of_isBlank {c : Char} (blank : Text.isBlank c = true) :
    Text.isPlainDigit c = false := by
  refine Bool.eq_false_iff.mpr fun digit => ?_
  rw [Text.isBlank_of_isPlainDigit digit] at blank
  cases blank

theorem hasLongNumeral_amidBlanks_iff {before behind : List Char}
    (blankBefore : ∀ c ∈ before, Text.isBlank c = true)
    (blankBehind : ∀ c ∈ behind, Text.isBlank c = true) :
    HasLongNumeral (before ++ text ++ behind) ↔ HasLongNumeral text := by
  have noneIn {margin : List Char} (blank : ∀ c ∈ margin, Text.isBlank c = true) :
      ¬ HasLongNumeral margin := by
    induction margin with
    | nil => exact not_hasLongNumeral_nil
    | cons c margin ih =>
        obtain ⟨blankHead, blankRest⟩ := List.forall_mem_cons.mp blank
        rw [hasLongNumeral_cons_iff (isPlainDigit_of_isBlank blankHead)]
        exact ih blankRest
  have front : HasLongNumeral (before ++ (text ++ behind)) ↔ HasLongNumeral (text ++ behind) := by
    induction before with
    | nil => rfl
    | cons c before ih =>
        obtain ⟨blankHead, blankRest⟩ := List.forall_mem_cons.mp blankBefore
        rw [List.cons_append, hasLongNumeral_cons_iff (isPlainDigit_of_isBlank blankHead)]
        exact ih blankRest
  rw [List.append_assoc, front]
  cases behind with
  | nil => rw [List.append_nil]
  | cons c behind =>
      obtain ⟨blankHead, blankRest⟩ := List.forall_mem_cons.mp blankBehind
      rw [hasLongNumeral_append_cons_iff (isPlainDigit_of_isBlank blankHead)]
      exact or_iff_left (noneIn blankRest)

theorem hasLongNumeral_intercalate_iff {items : List (List Char)} :
    HasLongNumeral ([','].intercalate items) ↔ ∃ item ∈ items, HasLongNumeral item := by
  induction items with
  | nil => simpa [List.intercalate] using not_hasLongNumeral_nil
  | cons item items ih =>
      cases items with
      | nil => simp
      | cons next items =>
          rw [List.intercalate_cons_cons, List.append_assoc, List.singleton_append,
            hasLongNumeral_append_cons_iff (by decide), ih, List.exists_mem_cons_iff _ item]

/-! Parts -/

theorem IsDigits.hasLongNumeral_iff (digits : IsDigits text) :
    HasLongNumeral text ↔ Text.maxDigits < text.length :=
  hasLongNumeral_digits_iff digits.2

theorem plainNumber?_eq_some_iff_not_long {n : Nat} :
    plainNumber? text = some n ↔ IsNumeralOf n text ∧ ¬ HasLongNumeral text := by
  rw [plainNumber?_eq_some_iff]
  refine and_congr_right fun numeral => ?_
  rw [numeral.1.hasLongNumeral_iff, Nat.not_lt]

/-- What is read as a part is what the language allows where no number is too long. -/
theorem Part.writes_iff : part.Writes text ↔ part.Spells text ∧ ¬ HasLongNumeral text := by
  have hyphen : Text.isPlainDigit '-' = false := by decide
  have slash : Text.isPlainDigit '/' = false := by decide
  have star : ¬ HasLongNumeral ['*'] := by
    rw [hasLongNumeral_cons_iff (by decide)]
    exact not_hasLongNumeral_nil
  have starStep (stepText : List Char) :
      HasLongNumeral ('*' :: '/' :: stepText) ↔ HasLongNumeral stepText := by
    rw [hasLongNumeral_cons_iff (by decide), hasLongNumeral_cons_iff slash]
  constructor
  · intro writes
    cases writes with
    | star => exact ⟨.star, star⟩
    | starStep reads =>
        obtain ⟨numeral, short⟩ := plainNumber?_eq_some_iff_not_long.mp reads
        exact ⟨.starStep numeral, (starStep _).not.mpr short⟩
    | range readsFirst readsLast =>
        obtain ⟨first, shortFirst⟩ := plainNumber?_eq_some_iff_not_long.mp readsFirst
        obtain ⟨last, shortLast⟩ := plainNumber?_eq_some_iff_not_long.mp readsLast
        refine ⟨.range first last, ?_⟩
        rw [hasLongNumeral_append_cons_iff hyphen]
        exact not_or_intro shortFirst shortLast
    | rangeStep readsFirst readsLast readsStep =>
        obtain ⟨first, shortFirst⟩ := plainNumber?_eq_some_iff_not_long.mp readsFirst
        obtain ⟨last, shortLast⟩ := plainNumber?_eq_some_iff_not_long.mp readsLast
        obtain ⟨step, shortStep⟩ := plainNumber?_eq_some_iff_not_long.mp readsStep
        refine ⟨.rangeStep first last step, ?_⟩
        rw [hasLongNumeral_append_cons_iff slash, hasLongNumeral_append_cons_iff hyphen]
        exact not_or_intro (not_or_intro shortFirst shortLast) shortStep
    | single reads =>
        obtain ⟨numeral, short⟩ := plainNumber?_eq_some_iff_not_long.mp reads
        exact ⟨.single numeral, short⟩
  · rintro ⟨spells, short⟩
    cases spells with
    | star => exact .star
    | starStep numeral =>
        rw [starStep] at short
        exact .starStep (plainNumber?_eq_some_iff_not_long.mpr ⟨numeral, short⟩)
    | range first last =>
        rw [hasLongNumeral_append_cons_iff hyphen, not_or] at short
        exact .range (plainNumber?_eq_some_iff_not_long.mpr ⟨first, short.1⟩)
          (plainNumber?_eq_some_iff_not_long.mpr ⟨last, short.2⟩)
    | rangeStep first last step =>
        rw [hasLongNumeral_append_cons_iff slash, hasLongNumeral_append_cons_iff hyphen, not_or,
          not_or] at short
        exact .rangeStep (plainNumber?_eq_some_iff_not_long.mpr ⟨first, short.1.1⟩)
          (plainNumber?_eq_some_iff_not_long.mpr ⟨last, short.1.2⟩)
          (plainNumber?_eq_some_iff_not_long.mpr ⟨step, short.2⟩)
    | single numeral => exact .single (plainNumber?_eq_some_iff_not_long.mpr ⟨numeral, short⟩)

theorem IsNumeralOf.partChars {n : Nat} (numeral : IsNumeralOf n text) :
    ∀ c ∈ text, isPartChar c = true := by
  intro c member
  rw [isPartChar, numeral.1.2 c member]
  rfl

theorem Part.Spells.partChars (spells : part.Spells text) : ∀ c ∈ text, isPartChar c = true := by
  have hyphen : isPartChar '-' = true := by decide
  have slash : isPartChar '/' = true := by decide
  have star : isPartChar '*' = true := by decide
  cases spells with
  | star => simpa using star
  | starStep step => simpa [star, slash] using step.partChars
  | range first last =>
      simp only [List.forall_mem_append, List.forall_mem_cons]
      exact ⟨first.partChars, hyphen, last.partChars⟩
  | rangeStep first last step =>
      simp only [List.forall_mem_append, List.forall_mem_cons]
      exact ⟨⟨first.partChars, hyphen, last.partChars⟩, slash, step.partChars⟩
  | single value => exact value.partChars

/-! Values -/

theorem mem_stepped_iff {first last step value : Int} (positive : 1 ≤ step) :
    value ∈ stepped first last step ↔
      ∃ place : Nat, value = first + step * place ∧ value ≤ last := by
  unfold stepped
  by_cases ordered : first ≤ last
  · rw [if_pos ordered, List.mem_map]
    constructor
    · rintro ⟨place, bound, rfl⟩
      refine ⟨place, rfl, ?_⟩
      have reached : (place : Int) ≤ (last - first) / step := by
        have := List.mem_range.mp bound
        have := Int.ediv_nonneg (a := last - first) (b := step) (by omega) (by omega)
        omega
      have := (Int.le_ediv_iff_mul_le (by omega)).mp reached
      rw [Int.mul_comm] at this
      omega
    · rintro ⟨place, rfl, bound⟩
      refine ⟨place, List.mem_range.mpr ?_, rfl⟩
      have reached : (place : Int) ≤ (last - first) / step := by
        refine (Int.le_ediv_iff_mul_le (by omega)).mpr ?_
        rw [Int.mul_comm]
        omega
      omega
  · rw [if_neg ordered]
    refine iff_of_false List.not_mem_nil ?_
    rintro ⟨place, rfl, bound⟩
    have := Int.mul_nonneg (show 0 ≤ step by omega) (Int.natCast_nonneg place)
    omega

theorem mem_stepped_one_iff {first last value : Int} :
    value ∈ stepped first last 1 ↔ first ≤ value ∧ value ≤ last := by
  rw [mem_stepped_iff le_rfl]
  constructor
  · rintro ⟨place, rfl, bound⟩
    exact ⟨by omega, bound⟩
  · rintro ⟨least, greatest⟩
    exact ⟨(value - first).toNat, by omega, greatest⟩

theorem stepped_ascending (first last : Int) {step : Int} (positive : 1 ≤ step) :
    (stepped first last step).Pairwise (· < ·) := by
  unfold stepped
  split
  · refine List.pairwise_map.mpr (List.pairwise_lt_range.imp fun {place later} earlier => ?_)
    have := Int.mul_lt_mul_of_pos_left (Int.ofNat_lt.mpr earlier) (show 0 < step by omega)
    omega
  · exact .nil

namespace Part

theorem mem_values_iff (fits : part.Fits bounds) {value : Int} :
    value ∈ part.values bounds ↔ part.Denotes bounds value := by
  cases part with
  | star => exact mem_stepped_one_iff
  | starStep step => exact mem_stepped_iff (Int.ofNat_le.mpr fits.1)
  | range first last => exact mem_stepped_one_iff
  | rangeStep first last step => exact mem_stepped_iff (Int.ofNat_le.mpr fits.2.1)
  | single n => exact List.mem_singleton

theorem values_ascending (fits : part.Fits bounds) : (part.values bounds).Pairwise (· < ·) := by
  cases part with
  | star => exact stepped_ascending _ _ le_rfl
  | starStep step => exact stepped_ascending _ _ (Int.ofNat_le.mpr fits.1)
  | range first last => exact stepped_ascending _ _ le_rfl
  | rangeStep first last step => exact stepped_ascending _ _ (Int.ofNat_le.mpr fits.2.1)
  | single n => exact List.pairwise_singleton _ _

theorem Denotes.within (fits : part.Fits bounds) {value : Int} (denotes : part.Denotes bounds value) :
    bounds.min ≤ value ∧ value ≤ bounds.max := by
  have climbed {first step : Int} (positive : 0 ≤ step) (place : Nat) :
      first ≤ first + step * place := by
    have := Int.mul_nonneg positive (Int.natCast_nonneg place)
    omega
  cases part with
  | star => exact denotes
  | starStep step =>
      obtain ⟨place, rfl, bound⟩ := denotes
      exact ⟨climbed (Int.natCast_nonneg step) place, bound⟩
  | range first last => exact ⟨fits.1.trans denotes.1, denotes.2.trans fits.2.2⟩
  | rangeStep first last step =>
      obtain ⟨place, rfl, bound⟩ := denotes
      exact ⟨fits.1.1.trans (climbed (Int.natCast_nonneg step) place), bound.trans fits.1.2.2⟩
  | single n =>
      cases denotes
      exact fits

end Part

theorem insertAscending_ascending {value : Int} (ascending : values.Pairwise (· < ·)) :
    (insertAscending value values).Pairwise (· < ·) := by
  induction values with
  | nil => exact List.pairwise_singleton _ _
  | cons least others ih =>
      obtain ⟨below, ascendingOthers⟩ := List.pairwise_cons.mp ascending
      unfold insertAscending
      split
      · rename_i less
        refine List.pairwise_cons.mpr ⟨List.forall_mem_cons.mpr ⟨less, fun other member => ?_⟩,
          ascending⟩
        exact less.trans (below other member)
      · split
        · exact ascending
        · rename_i notLess different
          refine List.pairwise_cons.mpr ⟨fun other member => ?_, ih ascendingOthers⟩
          rcases mem_insertAscending.mp member with rfl | further
          · omega
          · exact below other further

theorem ascending_ascending (values : List Int) : (ascending values).Pairwise (· < ·) := by
  induction values with
  | nil => exact .nil
  | cons value others ih => exact insertAscending_ascending ih

theorem eq_of_ascending {others : List Int} (up : values.Pairwise (· < ·))
    (upOthers : others.Pairwise (· < ·)) (same : ∀ value, value ∈ values ↔ value ∈ others) :
    values = others :=
  List.Pairwise.eq_of_mem_iff up upOthers same

/-! Lists -/

theorem Part.Spells.solid (spells : part.Spells text) : ∀ c ∈ text, Text.isBlank c = false :=
  fun c member => isBlank_of_isPartChar (spells.partChars c member)

theorem Part.Spells.no_comma (spells : part.Spells text) : ',' ∉ text :=
  not_mem_of_partChars spells.partChars (by decide)

theorem Part.SpellsAmidBlanks.no_comma (spells : part.SpellsAmidBlanks item) : ',' ∉ item := by
  obtain ⟨before, text, behind, rfl, blankBefore, blankBehind, spells⟩ := spells
  have comma : ¬ Text.isBlank ',' = true := by decide
  simp only [List.mem_append, not_or]
  exact ⟨⟨comma ∘ blankBefore ',', spells.no_comma⟩, comma ∘ blankBehind ','⟩

theorem Part.writes_trim_iff :
    part.Writes (Text.trim item) ↔ part.SpellsAmidBlanks item ∧ ¬ HasLongNumeral item := by
  rw [Part.writes_iff]
  constructor
  · rintro ⟨spells, short⟩
    obtain ⟨before, behind, whole, blankBefore, blankBehind⟩ := Text.exists_margins item
    refine ⟨⟨before, _, behind, whole, blankBefore, blankBehind, spells⟩, ?_⟩
    rwa [whole, hasLongNumeral_amidBlanks_iff blankBefore blankBehind]
  · rintro ⟨⟨before, text, behind, rfl, blankBefore, blankBehind, spells⟩, short⟩
    rw [hasLongNumeral_amidBlanks_iff blankBefore blankBehind] at short
    rw [Text.trim_of_margins blankBefore blankBehind, Text.trim_of_solid spells.solid]
    exact ⟨spells, short⟩

theorem forall₂_writes_trim_iff_spells {parts : List Part} {items : List (List Char)} :
    List.Forall₂ (fun part item => part.Writes (Text.trim item)) parts items ↔
      List.Forall₂ Part.SpellsAmidBlanks parts items ∧ ∀ item ∈ items, ¬ HasLongNumeral item := by
  induction items generalizing parts with
  | nil => simp
  | cons item items ih =>
      simp only [List.forall₂_cons_right_iff, ih, List.forall_mem_cons]
      simp only [Part.writes_trim_iff]
      constructor
      · rintro ⟨part, others, ⟨spells, short⟩, ⟨spellOthers, shortOthers⟩, rfl⟩
        exact ⟨⟨part, others, spells, spellOthers, rfl⟩, short, shortOthers⟩
      · rintro ⟨⟨part, others, spells, spellOthers, rfl⟩, short, shortOthers⟩
        exact ⟨part, others, ⟨spells, short⟩, ⟨spellOthers, shortOthers⟩, rfl⟩

variable {parts : List Part} {field : List Char}

theorem hasLongNumeral_splitAt_iff (field : List Char) :
    HasLongNumeral field ↔ ∃ item ∈ Text.splitAt ',' field, HasLongNumeral item := by
  rw [← hasLongNumeral_intercalate_iff, Text.intercalate_splitAt]

theorem lists_iff_of_comma (comma : ',' ∈ field) :
    Lists parts field ↔ List.Forall₂ Part.SpellsAmidBlanks parts (Text.splitAt ',' field) := by
  constructor
  · intro lists
    cases lists with
    | alone spells => exact absurd comma spells.no_comma
    | @several _ items several spell =>
        have absent : ∀ item ∈ items, ',' ∉ item := by
          intro item member
          obtain ⟨part, _, spells⟩ := exists_left_of_forall₂ spell member
          exact spells.no_comma
        rwa [Text.splitAt_intercalate (List.ne_nil_of_length_pos (by omega)) absent]
  · intro spell
    have several : 2 ≤ (Text.splitAt ',' field).length := by
      match cut : Text.splitAt ',' field with
      | [] => exact absurd cut (Text.splitAt_ne_nil ',' field)
      | [item] =>
          have whole := Text.intercalate_splitAt ',' field
          rw [cut, List.intercalate_singleton] at whole
          exact absurd rfl (Text.mem_of_mem_splitAt (cut ▸ List.mem_cons_self) ','
            (whole ▸ comma)).2
      | _ :: _ :: _ => simp
    exact Text.intercalate_splitAt ',' field ▸ Lists.several several spell

theorem lists_iff_of_no_comma (absent : ',' ∉ field) :
    Lists parts field ↔ ∃ part, parts = [part] ∧ part.Spells field := by
  constructor
  · intro lists
    cases lists with
    | alone spells => exact ⟨_, rfl, spells⟩
    | @several _ items several spell =>
        match items with
        | [] | [_] => simp at several
        | first :: next :: others =>
            rw [List.intercalate_cons_cons] at absent
            exact absurd (by simp) absent
  · rintro ⟨part, rfl, spells⟩
    exact .alone spells

theorem mem_flatMap_values_iff (fits : ∀ part ∈ parts, part.Fits bounds) {value : Int} :
    value ∈ parts.flatMap (·.values bounds) ↔ ∃ part ∈ parts, part.Denotes bounds value := by
  rw [List.mem_flatMap]
  exact exists_congr fun part => and_congr_right fun member => part.mem_values_iff (fits part member)

/-- Values that parts stand for together, in ascending order and each once. The parts must fit. -/
def DenotesValues (bounds : Bounds) (parts : List Part) (values : List Int) : Prop :=
  (∀ part ∈ parts, part.Fits bounds) ∧ values.Pairwise (· < ·) ∧
    ∀ value, value ∈ values ↔ ∃ part ∈ parts, part.Denotes bounds value

theorem exists_denotesValues (fits : ∀ part ∈ parts, part.Fits bounds) :
    ∃ values, DenotesValues bounds parts values := by
  refine ⟨_, fits, ascending_ascending (parts.flatMap (·.values bounds)), fun value => ?_⟩
  rw [mem_ascending, mem_flatMap_values_iff fits]

/-- A field is accepted exactly if it is of the language, its parts fit and none of its numbers is
too long. Its values are then those that its parts denote, in ascending order. -/
theorem expandField_eq_ok_iff :
    expandField bounds field = .ok values ↔
      ¬ HasLongNumeral field ∧ ∃ parts, Lists parts field ∧ DenotesValues bounds parts values := by
  unfold expandField DenotesValues
  by_cases comma : ',' ∈ field
  · rw [if_pos (by simpa using comma), map_ascending_eq_ok_iff]
    simp only [lists_iff_of_comma comma, hasLongNumeral_splitAt_iff field, not_exists,
      not_and, expandParts_eq_ok_iff, forall₂_writes_trim_iff_spells]
    constructor
    · rintro ⟨_, ⟨parts, ⟨spell, short⟩, fits, rfl⟩, rfl⟩
      refine ⟨short, parts, spell, fits, ascending_ascending _, fun value => ?_⟩
      rw [mem_ascending, mem_flatMap_values_iff fits]
    · rintro ⟨short, parts, spell, fits, up, denoted⟩
      refine ⟨_, ⟨parts, ⟨spell, short⟩, fits, rfl⟩, ?_⟩
      refine eq_of_ascending up (ascending_ascending _) fun value => ?_
      rw [denoted, mem_ascending, mem_flatMap_values_iff fits]
  · rw [if_neg (by simpa using comma), expandPart_eq_ok_iff]
    simp only [lists_iff_of_no_comma comma, Part.writes_iff]
    constructor
    · rintro ⟨part, ⟨spells, short⟩, fits, rfl⟩
      refine ⟨short, [part], ⟨part, rfl, spells⟩, by simpa using fits, part.values_ascending fits,
        fun value => ?_⟩
      simp [part.mem_values_iff fits]
    · rintro ⟨short, _, ⟨part, rfl, spells⟩, fits, up, denoted⟩
      obtain fits : part.Fits bounds := by simpa using fits
      refine ⟨part, ⟨spells, short⟩, fits, eq_of_ascending up (part.values_ascending fits) ?_⟩
      intro value
      simp [denoted, part.mem_values_iff fits]

end Recurrence.Crontab
