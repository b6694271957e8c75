import Recurrence.Proofs.Text.Numerals
import Recurrence.Text.Quoted

namespace Recurrence.Text

/-! Texts without any blanks but spaces. Numbers are such texts, and so is everything that is quoted
from inside a word. -/

def HasOnlySpaces (text : List Char) : Prop :=
  ∀ c ∈ text, isBlank c = true → c = ' '

instance (text : List Char) : Decidable (HasOnlySpaces text) :=
  List.decidableBAll _ text

theorem HasOnlySpaces.append {text further : List Char} (first : HasOnlySpaces text)
    (last : HasOnlySpaces further) : HasOnlySpaces (text ++ further) :=
  List.forall_mem_append.mpr ⟨first, last⟩

theorem HasOnlySpaces.cons {c : Char} {text : List Char} (solid : isBlank c = false)
    (behind : HasOnlySpaces text) : HasOnlySpaces (c :: text) := by
  refine List.forall_mem_cons.mpr ⟨fun blank => ?_, behind⟩
  rw [solid] at blank
  cases blank

theorem hasOnlySpaces_of_solid {text : List Char} (solid : ∀ c ∈ text, isBlank c = false) :
    HasOnlySpaces text := by
  intro c member blank
  rw [solid c member] at blank
  cases blank

/-! Numbers and quotations -/

theorem isBlank_of_isPlainDigit {c : Char} (digit : isPlainDigit c = true) : isBlank c = false := by
  have bounds := toNat_of_isPlainDigit digit
  simp [isBlank, blankRanges, inRanges]
  omega

theorem hasOnlySpaces_decimal (n : Nat) : HasOnlySpaces (decimal n) :=
  hasOnlySpaces_of_solid fun _ member => isBlank_of_isPlainDigit (isPlainDigit_of_mem_decimal member)

theorem hasOnlySpaces_signed (n : Int) : HasOnlySpaces (signed n) := by
  unfold signed
  split
  · exact (hasOnlySpaces_decimal _).cons (by decide)
  · exact hasOnlySpaces_decimal _

theorem exists_digitChar_of_mem_toDigits {base n : Nat} (proper : 1 < base) {c : Char}
    (member : c ∈ Nat.toDigits base n) : ∃ digit < base, c = Nat.digitChar digit := by
  induction n using Nat.strongRecOn with
  | ind n ih =>
      rw [Nat.toDigits_eq_if proper] at member
      split at member
      · rename_i small
        exact ⟨n, small, List.mem_singleton.mp member⟩
      · rename_i large
        rcases List.mem_append.mp member with higher | last
        · exact ih _ (Nat.div_lt_self (by omega) proper) higher
        · exact ⟨_, Nat.mod_lt _ (by omega), List.mem_singleton.mp last⟩

theorem isBlank_of_mem_hexDigits {width n : Nat} {c : Char} (member : c ∈ hexDigits width n) :
    isBlank c = false := by
  have solidDigits : ∀ digit < 16, isBlank (Nat.digitChar digit) = false := by decide
  rcases List.mem_append.mp member with filling | written
  · rw [List.eq_of_mem_replicate filling]
    decide
  · obtain ⟨digit, below, rfl⟩ := exists_digitChar_of_mem_toDigits (by decide) written
    exact solidDigits digit below

theorem isBlank_of_mem_escapeChar {quote c d : Char} (solid : isBlank c = false)
    (member : d ∈ escapeChar quote c) : isBlank d = false := by
  have marked {mark : Char} (notBlank : isBlank mark = false) {width : Nat}
      (written : d ∈ '\\' :: mark :: hexDigits width c.toNat) : isBlank d = false := by
    rcases List.mem_cons.mp written with rfl | further
    · decide
    · rcases List.mem_cons.mp further with rfl | digit
      · exact notBlank
      · exact isBlank_of_mem_hexDigits digit
  have pair {next : Char} (notBlank : isBlank next = false) (written : d ∈ ['\\', next]) :
      isBlank d = false := by
    rcases List.mem_cons.mp written with rfl | further
    · decide
    · exact List.mem_singleton.mp further ▸ notBlank
  unfold escapeChar at member
  repeat' split at member
  · exact pair solid member
  · exact pair (by decide) member
  · exact pair (by decide) member
  · exact pair (by decide) member
  · exact List.mem_singleton.mp member ▸ solid
  · exact marked (by decide) member
  · exact marked (by decide) member
  · exact marked (by decide) member

theorem hasOnlySpaces_quoted {text : List Char} (solid : ∀ c ∈ text, isBlank c = false) :
    HasOnlySpaces (quoted text) := by
  have mark : isBlank (quoteFor text) = false := by
    unfold quoteFor
    split <;> decide
  have escaped : ∀ d ∈ text.flatMap (escapeChar (quoteFor text)), isBlank d = false := by
    intro d member
    obtain ⟨c, inText, written⟩ := List.mem_flatMap.mp member
    exact isBlank_of_mem_escapeChar (solid c inText) written
  refine hasOnlySpaces_of_solid (List.forall_mem_cons.mpr ⟨mark, ?_⟩)
  exact List.forall_mem_append.mpr ⟨escaped, List.forall_mem_singleton.mpr mark⟩

end Recurrence.Text
