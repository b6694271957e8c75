import Recurrence.Text.Blank
import Recurrence.Text.Digit
import Recurrence.Text.WordChar

namespace Recurrence.Text

/-! Classes of characters that have nothing in common. -/

theorem exists_range_of_inRanges {ranges : List CodeRange} {code : Nat}
    (member : inRanges ranges code = true) :
    ∃ range ∈ ranges, range.1 ≤ code ∧ code ≤ range.2 := by
  induction ranges with
  | nil => cases member
  | cons range others ih =>
      unfold inRanges at member
      split at member
      · cases member
      · rename_i reached
        split at member
        · rename_i covered
          exact ⟨range, List.mem_cons_self, Nat.not_lt.mp reached, covered⟩
        · obtain ⟨further, inOthers, bounds⟩ := ih member
          exact ⟨further, List.mem_cons_of_mem _ inOthers, bounds⟩

theorem exists_start_of_isDigit {c : Char} (digit : isDigit c = true) :
    ∃ start ∈ zeros, start ≤ c.toNat ∧ c.toNat < start + 10 := by
  simpa [isDigit, digitValue?] using digit

theorem isBlank_of_isDigit {c : Char} (digit : isDigit c = true) : isBlank c = false := by
  have apart : ∀ start ∈ zeros, ∀ range ∈ blankRanges, range.2 < start ∨ start + 10 ≤ range.1 := by
    decide
  refine Bool.eq_false_iff.mpr fun blank => ?_
  obtain ⟨start, inZeros, digitBounds⟩ := exists_start_of_isDigit digit
  obtain ⟨range, inBlanks, blankBounds⟩ := exists_range_of_inRanges blank
  have sides := apart start inZeros range inBlanks
  omega

theorem not_inRanges_of_apart {ranges others : List CodeRange} {code : Nat}
    (apart : ∀ range ∈ ranges, ∀ other ∈ others, range.2 < other.1 ∨ other.2 < range.1)
    (member : inRanges others code = true) : inRanges ranges code = false := by
  refine Bool.eq_false_iff.mpr fun inOne => ?_
  obtain ⟨range, listed, bounds⟩ := exists_range_of_inRanges inOne
  obtain ⟨other, otherListed, otherBounds⟩ := exists_range_of_inRanges member
  have sides := apart range listed other otherListed
  omega

theorem isWordChar_of_isBlank {c : Char} (blank : isBlank c = true) : isWordChar c = false := by
  have noDigit : isDigit c = false := by
    refine Bool.eq_false_iff.mpr fun digit => ?_
    rw [isBlank_of_isDigit digit] at blank
    cases blank
  have noUnderscore : (c == '_') = false := by
    refine Bool.eq_false_iff.mpr fun same => ?_
    rw [eq_of_beq same] at blank
    exact absurd blank (by decide)
  have noLetter : inRanges letterRanges c.toNat = false :=
    not_inRanges_of_apart (by decide +kernel) blank
  have noSignDigit : inRanges signDigitRanges c.toNat = false :=
    not_inRanges_of_apart (by decide +kernel) blank
  have noNumberSign : inRanges numberSignRanges c.toNat = false :=
    not_inRanges_of_apart (by decide +kernel) blank
  simp only [isWordChar, isLetter, isDigitSign, noLetter, noDigit, noSignDigit, noNumberSign,
    noUnderscore, Bool.or_false]

end Recurrence.Text
