import Recurrence.Console.Display
import Recurrence.Proofs.Text.Spaces

namespace Recurrence.Console

/-! What remains of a text on a terminal. A text without breaks and tabs keeps within one line, and
it is shown as it is unless it holds backslashes or characters that would move the cursor. -/

variable {text : List Char} {c : Char}

theorem expandTabs_of_not_mem (noTab : '\t' ∉ text) (column : Nat) :
    expandTabs column text = text := by
  induction text generalizing column with
  | nil => rfl
  | cons c rest ih =>
      rw [List.mem_cons, not_or] at noTab
      simp [expandTabs, Ne.symm noTab.1, ih noTab.2]

theorem mem_of_mem_dropBracketEscapes (member : c ∈ dropBracketEscapes text) : c ∈ text := by
  induction text using dropBracketEscapes.induct with
  | case1 => exact member
  | case2 c => exact member
  | case3 c next rest escape ih =>
      rw [dropBracketEscapes, if_pos escape] at member
      exact List.mem_cons_of_mem _ (ih member)
  | case4 c next rest noEscape ih =>
      rw [dropBracketEscapes, if_neg noEscape] at member
      rcases List.mem_cons.mp member with rfl | further
      · exact List.mem_cons_self
      · exact List.mem_cons_of_mem _ (ih further)

theorem dropBracketEscapes_of_not_mem (noBackslash : '\\' ∉ text) :
    dropBracketEscapes text = text := by
  induction text using dropBracketEscapes.induct with
  | case1 => rfl
  | case2 c => rfl
  | case3 c next rest escape ih =>
      simp only [Bool.and_eq_true, beq_iff_eq] at escape
      exact absurd (escape.1.1 ▸ List.mem_cons_self) noBackslash
  | case4 c next rest noEscape ih =>
      rw [dropBracketEscapes, if_neg noEscape,
        ih fun behind => noBackslash (List.mem_cons_of_mem _ behind)]

/-- What is shown of a text behind a label, without the break that ends it. -/
def shown (text : List Char) : List Char :=
  (dropBracketEscapes text).filter (!movesCursor ·)

theorem hasOnlySpaces_shown (onlySpaces : Text.HasOnlySpaces text) :
    Text.HasOnlySpaces (shown text) :=
  fun c member => onlySpaces c (mem_of_mem_dropBracketEscapes (List.mem_of_mem_filter member))

theorem shown_of_plain (noBackslash : '\\' ∉ text) (still : ∀ c ∈ text, movesCursor c = false) :
    shown text = text := by
  rw [shown, dropBracketEscapes_of_not_mem noBackslash, List.filter_eq_self]
  intro c member
  rw [still c member]
  rfl

theorem labelled_of_hasOnlySpaces (label : String) (spacedLabel : Text.HasOnlySpaces label.toList)
    (onlySpaces : Text.HasOnlySpaces text) :
    labelled label text = line (label.toList ++ shown text) ∧
      '\n' ∉ label.toList ++ shown text := by
  have whole := spacedLabel.append (hasOnlySpaces_shown onlySpaces)
  refine ⟨?_, fun member => absurd (whole '\n' member (by decide)) (by decide)⟩
  have noTab : '\t' ∉ label.toList ++ shown text :=
    fun member => absurd (whole '\t' member (by decide)) (by decide)
  exact congrArg (· ++ ['\n']) (expandTabs_of_not_mem noTab 0)

end Recurrence.Console
