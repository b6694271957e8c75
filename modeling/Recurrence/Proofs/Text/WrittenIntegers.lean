import Mathlib.Data.List.Basic
import Mathlib.Data.Nat.Digits.Defs
import Recurrence.Proofs.Text.Classes
import Recurrence.Proofs.Text.Words
import Recurrence.Text.Numeral

namespace Recurrence.Text

/-! Whole numbers as they are written: with white space around them, a sign in front, and single
underscores between their digits, which may come from any scripts. Exactly the texts that write a number
in this way are read, each as the number that it writes. -/

/-- Digits with at most one underscore between two of them, and what the digits are worth one by one. -/
inductive Groups : List Char → List Nat → Prop
  | last {c : Char} {digit : Nat} (worth : digitValue? c = some digit) : Groups [c] [digit]
  | next {c : Char} {digit : Nat} {text : List Char} {digits : List Nat}
      (worth : digitValue? c = some digit) (behind : Groups text digits) :
      Groups (c :: text) (digit :: digits)
  | across {c : Char} {digit : Nat} {text : List Char} {digits : List Nat}
      (worth : digitValue? c = some digit) (behind : Groups text digits) :
      Groups (c :: '_' :: text) (digit :: digits)

/-- Digits that are not too many, and the number that they make in base ten. -/
inductive WritesNatural : List Char → Nat → Prop
  | digits {text : List Char} {digits : List Nat} (groups : Groups text digits)
      (short : digits.length ≤ maxDigits) : WritesNatural text (Nat.ofDigits 10 digits.reverse)

inductive WritesSigned : List Char → Int → Prop
  | unsigned {text : List Char} {n : Nat} (writes : WritesNatural text n) : WritesSigned text n
  | plus {text : List Char} {n : Nat} (writes : WritesNatural text n) : WritesSigned ('+' :: text) n
  | minus {text : List Char} {n : Nat} (writes : WritesNatural text n) :
      WritesSigned ('-' :: text) (-n)

def WritesInteger (text : List Char) (n : Int) : Prop :=
  ∃ before numeral behind, text = before ++ numeral ++ behind ∧ (∀ c ∈ before, isMargin c = true) ∧
    (∀ c ∈ behind, isMargin c = true) ∧ WritesSigned numeral n

variable {text : List Char} {digits : List Nat}

/-! Digits in groups -/

theorem digitValue?_underscore : digitValue? '_' = none := by
  decide

theorem exists_digitValue?_of_isDigit {c : Char} (digit : isDigit c = true) :
    ∃ worth, digitValue? c = some worth :=
  Option.isSome_iff_exists.mp digit

theorem isDigit_of_digitValue? {c : Char} {worth : Nat} (known : digitValue? c = some worth) :
    isDigit c = true :=
  Option.isSome_iff_exists.mpr ⟨worth, known⟩

theorem Groups.exists_first (groups : Groups text digits) :
    ∃ c rest, text = c :: rest ∧ isDigit c = true := by
  cases groups with
  | last worth => exact ⟨_, _, rfl, isDigit_of_digitValue? worth⟩
  | next worth behind => exact ⟨_, _, rfl, isDigit_of_digitValue? worth⟩
  | across worth behind => exact ⟨_, _, rfl, isDigit_of_digitValue? worth⟩

theorem Groups.isDigit_of_getLast? (groups : Groups text digits) :
    ∀ c ∈ text.getLast?, isDigit c = true := by
  induction groups with
  | last worth =>
      intro c last
      obtain rfl : _ = c := Option.some.inj last
      exact isDigit_of_digitValue? worth
  | next worth behind ih =>
      obtain ⟨c, rest, rfl, _⟩ := behind.exists_first
      exact ih
  | across worth behind ih =>
      obtain ⟨c, rest, rfl, _⟩ := behind.exists_first
      exact ih

theorem Groups.isGrouped (groups : Groups text digits) : isGrouped text = true := by
  induction groups with
  | last worth => exact isDigit_of_digitValue? worth
  | next worth behind ih =>
      obtain ⟨c, rest, rfl, digit⟩ := behind.exists_first
      -- An underscore has a case of its own, but no groups begin with one.
      have noUnderscore : ∀ further, c :: rest ≠ '_' :: further := by
        intro further same
        rw [(List.cons.inj same).1, isDigit, digitValue?_underscore] at digit
        cases digit
      rw [Text.isGrouped.eq_4 _ (c :: rest) (List.cons_ne_nil c rest) noUnderscore,
        isDigit_of_digitValue? worth, ih, Bool.and_self]
  | across worth behind ih =>
      rw [Text.isGrouped, isDigit_of_digitValue? worth, ih, Bool.and_self]

theorem Groups.filterMap_digitValue? (groups : Groups text digits) :
    text.filterMap digitValue? = digits := by
  induction groups with
  | last worth => simp [worth]
  | next worth behind ih => simp [worth, ih]
  | across worth behind ih => simp [worth, digitValue?_underscore, ih]

theorem groups_of_isGrouped (grouped : isGrouped text = true) :
    Groups text (text.filterMap digitValue?) := by
  fun_induction isGrouped text with
  | case1 => cases grouped
  | case2 c =>
      obtain ⟨worth, known⟩ := exists_digitValue?_of_isDigit grouped
      simpa [known] using Groups.last known
  | case3 c rest ih =>
      obtain ⟨digit, behind⟩ := Bool.and_eq_true_iff.mp grouped
      obtain ⟨worth, known⟩ := exists_digitValue?_of_isDigit digit
      simpa [known, digitValue?_underscore] using Groups.across known (ih behind)
  | case4 c rest _ _ ih =>
      obtain ⟨digit, behind⟩ := Bool.and_eq_true_iff.mp grouped
      obtain ⟨worth, known⟩ := exists_digitValue?_of_isDigit digit
      simpa [known] using Groups.next known (ih behind)

theorem length_filter_isDigit (text : List Char) :
    (text.filter isDigit).length = (text.filterMap digitValue?).length := by
  rw [List.length_filterMap_eq_countP, List.countP_eq_length_filter]
  rfl

theorem digitsValue_filter_isDigit (text : List Char) :
    digitsValue (text.filter isDigit) = Nat.ofDigits 10 (text.filterMap digitValue?).reverse := by
  rw [Nat.ofDigits_eq_foldr, List.foldr_reverse, digitsValue, List.foldl_filter, List.foldl_filterMap]
  refine List.foldl_ext _ _ _ fun value c _ => ?_
  cases known : digitValue? c with
  | none => simp [isDigit, known]
  | some worth => simp [isDigit, known, Nat.add_comm]

theorem readGrouped?_eq_some_iff {n : Nat} : readGrouped? text = some n ↔ WritesNatural text n := by
  unfold readGrouped? readDigits
  constructor
  · intro read
    split at read
    · rename_i grouped
      split at read
      · rename_i short
        obtain rfl : digitsValue (text.filter isDigit) = n := Option.some.inj read
        rw [digitsValue_filter_isDigit]
        exact .digits (groups_of_isGrouped grouped) (length_filter_isDigit text ▸ short)
      · cases read
    · cases read
  · intro writes
    obtain ⟨groups, short⟩ := writes
    obtain rfl := groups.filterMap_digitValue?
    rw [if_pos groups.isGrouped, if_pos (length_filter_isDigit text ▸ short),
      digitsValue_filter_isDigit]
    rfl

/-! Signs and margins -/

theorem isMargin_of_isDigit {c : Char} (digit : isDigit c = true) : isMargin c = false := by
  rw [isMargin, isBlank_of_isDigit digit, Bool.false_and]

theorem WritesNatural.exists_first {n : Nat} (writes : WritesNatural text n) :
    ∃ c rest, text = c :: rest ∧ isDigit c = true := by
  cases writes with
  | digits groups short => exact groups.exists_first

theorem WritesNatural.isMargin_of_getLast? {n : Nat} (writes : WritesNatural text n) :
    ∀ c ∈ text.getLast?, isMargin c = false := by
  cases writes with
  | digits groups short => exact fun c last => isMargin_of_isDigit (groups.isDigit_of_getLast? c last)

theorem WritesSigned.strip {n : Int} (writes : WritesSigned text n) :
    Text.strip isMargin text = text := by
  have signed {sign : Char} {text : List Char} {n : Nat} (solid : isMargin sign = false)
      (writes : WritesNatural text n) : Text.strip isMargin (sign :: text) = sign :: text := by
    obtain ⟨c, rest, rfl, _⟩ := writes.exists_first
    exact strip_of_ends (fun d first => Option.some.inj first ▸ solid) writes.isMargin_of_getLast?
  cases writes with
  | plus writes => exact signed (by decide) writes
  | minus writes => exact signed (by decide) writes
  | unsigned writes =>
      refine strip_of_ends ?_ writes.isMargin_of_getLast?
      obtain ⟨c, rest, rfl, digit⟩ := writes.exists_first
      exact fun d first => Option.some.inj first ▸ isMargin_of_isDigit digit

theorem WritesNatural.not_sign {sign : Char} {n : Nat} (noDigit : isDigit sign = false) :
    ¬ WritesNatural (sign :: text) n := by
  intro writes
  obtain ⟨c, rest, same, digit⟩ := writes.exists_first
  rw [← (List.cons.inj same).1, noDigit] at digit
  cases digit

theorem readInteger?_eq_some_iff_writesSigned {n : Int} :
    readInteger? text = some n ↔ WritesSigned (strip isMargin text) n := by
  unfold readInteger?
  generalize strip isMargin text = numeral
  split <;> simp only [Option.map_eq_some_iff, readGrouped?_eq_some_iff]
  · constructor
    · intro read
      obtain ⟨m, writes, rfl⟩ := read
      exact .minus writes
    · intro writes
      cases writes with
      | unsigned writes => exact (WritesNatural.not_sign (by decide) writes).elim
      | minus writes => exact ⟨_, writes, rfl⟩
  · constructor
    · intro read
      obtain ⟨m, writes, rfl⟩ := read
      exact .plus writes
    · intro writes
      cases writes with
      | unsigned writes => exact (WritesNatural.not_sign (by decide) writes).elim
      | plus writes => exact ⟨_, writes, rfl⟩
  · rename_i noMinus noPlus
    constructor
    · intro read
      obtain ⟨m, writes, rfl⟩ := read
      exact .unsigned writes
    · intro writes
      cases writes with
      | unsigned writes => exact ⟨_, writes, rfl⟩
      | plus writes => exact (noPlus _ rfl).elim
      | minus writes => exact (noMinus _ rfl).elim

/-- Exactly the texts that write a number are read. -/
theorem readInteger?_eq_some_iff {n : Int} : readInteger? text = some n ↔ WritesInteger text n := by
  rw [readInteger?_eq_some_iff_writesSigned]
  constructor
  · intro writes
    obtain ⟨before, behind, whole, marginBefore, marginBehind⟩ := exists_stripped isMargin text
    exact ⟨before, _, behind, whole, marginBefore, marginBehind, writes⟩
  · intro written
    obtain ⟨before, numeral, behind, rfl, marginBefore, marginBehind, writes⟩ := written
    rwa [strip_of_margins marginBefore marginBehind, writes.strip]

example : readInteger? "\u00a0-1_٢\n".toList = some (-12) ∧ readInteger? "\x1f5".toList = none := by
  decide +kernel

end Recurrence.Text
