import Recurrence.Proofs.Crontab.Verdicts
import Recurrence.Proofs.Text.Spaces

namespace Recurrence.Crontab

/-! Messages. A message quotes nothing but words, so it holds no blanks but the spaces of its own
wording. -/

open Text (HasOnlySpaces hasOnlySpaces_decimal hasOnlySpaces_signed)

theorem FieldFault.IsIn.hasOnlySpaces_message {bounds : Bounds} {text : List Char}
    {fault : FieldFault} (isIn : fault.IsIn bounds text) (label : HasOnlySpaces bounds.label)
    (solid : ∀ c ∈ text, Text.isBlank c = false) : HasOnlySpaces fault.message := by
  have piece {piece : List Char} (within : piece <:+: text) : ∀ c ∈ piece, Text.isBlank c = false :=
    fun c member => solid c (within.subset member)
  have quote {quote : List Char} (within : quote <:+: text) : HasOnlySpaces quote :=
    Text.hasOnlySpaces_of_solid (piece within)
  have number := hasOnlySpaces_signed
  have limits {start : List Char} (begun : HasOnlySpaces start) : HasOnlySpaces
      (start ++ Text.signed bounds.min ++ '-' :: Text.signed bounds.max ++ [')']) :=
    ((begun.append (number _)).append ((number _).cons (by decide))).append (by decide)
  cases isIn with
  | empty => exact (HasOnlySpaces.append (by decide) label).append (by decide)
  | @notNumber named text isNamed within =>
      have name : HasOnlySpaces named := by
        rcases isNamed with rfl | rfl
        · exact label
        · exact label.append (by decide)
      exact ((name.append (by decide)).append (Text.hasOnlySpaces_quoted (piece within))).append
        (by decide)
  | stepOutOfRange step =>
      exact ((((label.append (by decide)).append (number _)).append (by decide)).append
        (number _)).append (by decide)
  | stepWithoutRange within => exact HasOnlySpaces.append (by decide) (quote within)
  | rangeOutOfBounds within =>
      exact limits (((label.append (by decide)).append (quote within)).append (by decide))
  | valueOutOfRange value =>
      exact limits (((label.append (by decide)).append (number _)).append (by decide))
  | numeralTooLong within areDigits tooMany =>
      have digits := hasOnlySpaces_decimal
      exact (((HasOnlySpaces.append (by decide) (digits _)).append (by decide)).append
        (digits _)).append (by decide)

theorem Defect.IsIn.hasOnlySpaces_message {expression : List Char} {defect : Defect}
    (isIn : defect.IsIn expression) : HasOnlySpaces defect.message := by
  have solid {word : List Char} (member : word ∈ Text.words expression) :
      ∀ c ∈ word, Text.isBlank c = false := (Text.isWord_of_mem_words member).2
  cases isIn with
  | empty => decide
  | fieldCount found => exact HasOnlySpaces.append (by decide) (hasOnlySpaces_decimal found)
  | layout expected found =>
      refine HasOnlySpaces.append ?_ (hasOnlySpaces_decimal found)
      cases expected <;> decide
  | seconds word inField =>
      exact HasOnlySpaces.append (by decide) (inField.hasOnlySpaces_message (by decide) (solid word))
  | operator known =>
      simp only [List.mem_cons, List.not_mem_nil, or_false] at known
      rcases known with rfl | rfl | rfl | rfl <;> decide
  | @field field text fault word inField =>
      exact inField.hasOnlySpaces_message (by cases field <;> decide) (solid word)

/-- A complaint fits into one line. -/
theorem hasOnlySpaces_of_validate {expression : List Char} {format found : Option Format}
    {defect : Defect} (checked : validate expression format = .ok ⟨some defect, found⟩) :
    HasOnlySpaces defect.message :=
  (isIn_of_validate checked).hasOnlySpaces_message

end Recurrence.Crontab
