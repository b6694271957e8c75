import Recurrence.Phrase.Canonical
import Recurrence.Proofs.Text.Classes
import Recurrence.Proofs.Text.Cutting
import Recurrence.Proofs.Text.LowerCase
import Recurrence.Proofs.Text.Words

namespace Recurrence

/-! Canonical forms of blank texts, which are empty, and of words that have nothing to be taken out
or set apart. -/

namespace Text

variable {text : List Char}

theorem lowerChar_of_isBlank {c : Char} (blank : isBlank c = true) :
    c ≠ 'Σ' ∧ lowerChar c = [c] := by
  have apart : ∀ run ∈ capitalRuns, ∀ range ∈ blankRanges,
      run.last < range.1 ∨ range.2 < run.first := by decide +kernel
  have other {d : Char} (solid : isBlank d = false) : c ≠ d := by
    intro same
    subst same
    rw [blank] at solid
    cases solid
  refine ⟨other (by decide), lowerChar_of_uncovered (other (by decide)) fun run member => ?_⟩
  obtain ⟨range, inBlanks, bounds⟩ := exists_range_of_inRanges blank
  have sides := apart run member range inBlanks
  simp only [CapitalRun.covers, Bool.and_eq_false_iff, decide_eq_false_iff_not]
  omega

theorem not_mem_of_blank (blank : ∀ c ∈ text, isBlank c = true) {c : Char}
    (solid : isBlank c = false) : c ∉ text := by
  intro member
  rw [blank c member] at solid
  cases solid

end Text

namespace Phrase

/-! Halves of the day -/

/-- A half of the day begins directly behind a digit. -/
def IsMeridiemAt (c : Char) (rest : List Char) : Prop :=
  Text.isDigit c = true ∧ ∃ half ∈ ['a', 'p'], [half, 'm'] <+: rest

theorem isDigit_of_isHalf {c : Char} (isHalf : c ∈ ['a', 'p']) : Text.isDigit c = false := by
  rcases List.mem_pair.mp isHalf with rfl | rfl <;> decide

theorem separateMeridiem_cons_of_not_digit {c : Char} (notDigit : Text.isDigit c = false)
    (rest : List Char) : separateMeridiem (c :: rest) = c :: separateMeridiem rest := by
  rw [separateMeridiem.eq_def]
  split
  · rename_i same
    cases same
    rw [notDigit]
    rfl
  · rename_i same
    cases same
    rfl
  · contradiction

theorem separateMeridiem_cons (c : Char) (rest : List Char) :
    IsMeridiemAt c rest ∧ separateMeridiem (c :: rest) = c :: ' ' :: separateMeridiem rest ∨
      ¬ IsMeridiemAt c rest ∧ separateMeridiem (c :: rest) = c :: separateMeridiem rest := by
  rw [separateMeridiem.eq_def]
  split
  · rename_i d half behind same
    cases same
    by_cases meridiem : (Text.isDigit c && (half == 'a' || half == 'p')) = true
    · rw [if_pos meridiem]
      simp only [Bool.and_eq_true, Bool.or_eq_true, beq_iff_eq] at meridiem
      have isHalf : half ∈ ['a', 'p'] := List.mem_pair.mpr meridiem.2
      refine Or.inl ⟨⟨meridiem.1, half, isHalf, behind, rfl⟩, ?_⟩
      rw [separateMeridiem_cons_of_not_digit (isDigit_of_isHalf isHalf),
        separateMeridiem_cons_of_not_digit (by decide)]
    · refine Or.inr ⟨?_, if_neg meridiem⟩
      rintro ⟨digit, other, isOther, front⟩
      obtain rfl := (List.cons_prefix_cons.mp front).1
      simp only [digit, Bool.true_and, Bool.or_eq_true, beq_iff_eq] at meridiem
      exact meridiem (List.mem_pair.mp isOther)
  · rename_i notHalf same
    cases same
    refine Or.inr ⟨?_, rfl⟩
    rintro ⟨_, half, _, behind, rfl⟩
    exact notHalf half behind rfl
  · contradiction

theorem separateMeridiem_of_no_digit {text : List Char}
    (noDigit : ∀ c ∈ text, Text.isDigit c = false) : separateMeridiem text = text := by
  induction text with
  | nil => rfl
  | cons c rest ih =>
      obtain ⟨notDigit, noDigitBehind⟩ := List.forall_mem_cons.mp noDigit
      rw [separateMeridiem_cons_of_not_digit notDigit, ih noDigitBehind]

theorem separateMeridiem_of_not_mem {text : List Char} (absent : 'm' ∉ text) :
    separateMeridiem text = text := by
  induction text with
  | nil => rfl
  | cons c rest ih =>
      rcases separateMeridiem_cons c rest with ⟨⟨_, half, _, behind, rfl⟩, _⟩ | ⟨_, kept⟩
      · simp at absent
      · rw [kept, ih fun member => absent (List.mem_cons_of_mem _ member)]

/-! Fillers -/

theorem dropFillers_of_not_mem {text : List Char} (noO : 'o' ∉ text) (noE : 'e' ∉ text) :
    dropFillers text = text := by
  have clock : "o'clock".toList = 'o' :: "'clock".toList := by decide
  have single : "every single".toList = 'e' :: "very single".toList := by decide
  have each : "each and every".toList = 'e' :: "ach and every".toList := by decide
  unfold dropFillers Text.replaceAll
  rw [clock, single, each, Text.replaceAfter_of_not_mem noO, Text.replaceAfter_of_not_mem noE,
    Text.replaceAfter_of_not_mem noE]

/-! Passes -/

theorem pass_of_blank {text : List Char} (blank : ∀ c ∈ text, Text.isBlank c = true) :
    pass text = [] := by
  have noDigit : ∀ c ∈ text, Text.isDigit c = false := by
    intro c member
    refine Bool.eq_false_iff.mpr fun digit => ?_
    have solid := Text.isBlank_of_isDigit digit
    rw [blank c member] at solid
    cases solid
  have fillers : dropFillers text = text := dropFillers_of_not_mem
    (Text.not_mem_of_blank blank (by decide)) (Text.not_mem_of_blank blank (by decide))
  rw [pass, Text.lower_of_fixed fun c member => Text.lowerChar_of_isBlank (blank c member),
    fillers, separateMeridiem_of_no_digit noDigit, Text.words_eq_nil blank, Text.unwords_nil]

theorem canonical_of_blank {text : List Char} (blank : ∀ c ∈ text, Text.isBlank c = true) :
    canonical text = [] := by
  have still : pass [] = [] := by decide
  rw [canonical, pass_of_blank blank, List.length_nil, settle, if_pos still]

/-- Words in small letters are their own canonical form if they have no `o`, no `e` and no `m`: every
filler has one of the first two, and the halves of the day have the third. -/
theorem canonical_unwords {parts : List (List Char)} (areWords : ∀ part ∈ parts, Text.IsWord part)
    (small : ∀ c ∈ Text.unwords parts, c.toNat < 65 ∨ (91 ≤ c.toNat ∧ c.toNat < 123))
    (absent : ∀ c ∈ ['o', 'e', 'm'], c ∉ Text.unwords parts) :
    canonical (Text.unwords parts) = Text.unwords parts := by
  have passed : pass (Text.unwords parts) = Text.unwords parts := by
    simp only [List.forall_mem_cons] at absent
    obtain ⟨noO, noE, noM, _⟩ := absent
    rw [pass, Text.lower_of_not_capital small, dropFillers_of_not_mem noO noE,
      separateMeridiem_of_not_mem noM, Text.words_unwords areWords]
  rw [canonical, passed, settle, if_pos passed]

end Phrase

end Recurrence
