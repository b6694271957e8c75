import Recurrence.Proofs.Crontab.Grammar

namespace Recurrence.Crontab

/-! What the field grammar finds wrong with a field. A fault names the field, and what it quotes
stands in the text of the field. -/

variable {bounds : Bounds} {text part : List Char} {fault : FieldFault}

/-- The faults that a text may have as a field with the given bounds. -/
inductive FieldFault.IsIn (bounds : Bounds) (text : List Char) : FieldFault → Prop
  | empty : IsIn bounds text (.empty bounds.label)
  | notNumber {label piece : List Char}
      (named : label = bounds.label ∨ label = bounds.label ++ " step".toList)
      (within : piece <:+: text) : IsIn bounds text (.notNumber label piece)
  | stepOutOfRange (step : Int) : IsIn bounds text (.stepOutOfRange bounds.label step bounds.max)
  | stepWithoutRange {part : List Char} (within : part <:+: text) :
      IsIn bounds text (.stepWithoutRange part)
  | rangeOutOfBounds {range : List Char} (within : range <:+: text) :
      IsIn bounds text (.rangeOutOfBounds bounds range)
  | valueOutOfRange (value : Int) : IsIn bounds text (.valueOutOfRange bounds value)
  | numeralTooLong {digits : List Char} (within : digits <:+: text)
      (areDigits : ∀ c ∈ digits, Text.isPlainDigit c = true)
      (tooMany : Text.maxDigits < digits.length) :
      IsIn bounds text (.numeralTooLong ⟨digits.length⟩)

namespace FieldFault

theorem IsIn.within (isIn : fault.IsIn bounds part) (outer : part <:+: text) :
    fault.IsIn bounds text := by
  cases isIn with
  | empty => exact .empty
  | notNumber named within => exact .notNumber named (within.trans outer)
  | stepOutOfRange step => exact .stepOutOfRange step
  | stepWithoutRange within => exact .stepWithoutRange (within.trans outer)
  | rangeOutOfBounds within => exact .rangeOutOfBounds (within.trans outer)
  | valueOutOfRange value => exact .valueOutOfRange value
  | numeralTooLong within areDigits tooMany =>
      exact .numeralTooLong (within.trans outer) areDigits tooMany

end FieldFault

/-! Faults of a field, from its numbers up -/

theorem isIn_of_readNumber {label : List Char}
    (named : label = bounds.label ∨ label = bounds.label ++ " step".toList)
    (refused : readNumber label text = .error fault) : fault.IsIn bounds text := by
  unfold readNumber at refused
  split at refused
  · rename_i digits
    by_cases short : text.length ≤ Text.maxDigits
    · simp [Text.readDigits, short] at refused
    · simp only [Text.readDigits, short, if_false, Except.error.injEq] at refused
      subst refused
      exact .numeralTooLong List.infix_rfl (List.all_eq_true.mp digits.2) (Nat.not_le.mp short)
  · cases refused
    exact .notNumber named List.infix_rfl

theorem infix_of_readStep {base : List Char} {step : Int}
    (read : readStep bounds text = .ok (base, step)) : base <:+: text := by
  rcases readStep_ok read with ⟨_, rfl, _⟩ | ⟨stepText, _, rfl, _⟩
  · exact List.infix_rfl
  · exact (List.prefix_append _ _).isInfix

theorem isIn_of_readStep (refused : readStep bounds text = .error fault) :
    fault.IsIn bounds text := by
  unfold readStep at refused
  cases cut : Text.splitFirst? '/' text with
  | none => simp [cut] at refused
  | some pieces =>
      obtain ⟨base, stepText⟩ := pieces
      simp only [cut] at refused
      split at refused
      · rename_i inStep unread
        cases refused
        exact (isIn_of_readNumber (Or.inr rfl) unread).within (Text.infix_of_splitFirst? cut).2
      · rename_i step read
        split at refused
        · cases refused
          exact .stepOutOfRange step
        · split at refused
          · cases refused
            exact .stepWithoutRange List.infix_rfl
          · cases refused

theorem isIn_of_expandBase {step : Int} (refused : expandBase bounds text step = .error fault) :
    fault.IsIn bounds text := by
  unfold expandBase at refused
  split at refused
  · cases refused
  · cases cut : Text.splitFirst? '-' text with
    | none =>
        simp only [cut] at refused
        split at refused
        · rename_i inValue unread
          cases refused
          exact isIn_of_readNumber (Or.inl rfl) unread
        · rename_i value read
          split at refused
          · cases refused
            exact .valueOutOfRange value
          · cases refused
    | some pieces =>
        obtain ⟨firstText, lastText⟩ := pieces
        obtain ⟨firstWithin, lastWithin⟩ := Text.infix_of_splitFirst? cut
        simp only [cut] at refused
        split at refused
        · rename_i inFirst unread
          cases refused
          exact (isIn_of_readNumber (Or.inl rfl) unread).within firstWithin
        · split at refused
          · rename_i inLast unread
            cases refused
            exact (isIn_of_readNumber (Or.inl rfl) unread).within lastWithin
          · split at refused
            · cases refused
              exact .rangeOutOfBounds List.infix_rfl
            · cases refused

theorem isIn_of_expandPart (refused : expandPart bounds text = .error fault) :
    fault.IsIn bounds text := by
  unfold expandPart at refused
  split at refused
  · cases refused
    exact .empty
  · split at refused
    · rename_i inStep unread
      cases refused
      exact isIn_of_readStep unread
    · rename_i base step read
      exact (isIn_of_expandBase refused).within (infix_of_readStep read)

theorem isIn_of_expandParts {parts : List (List Char)}
    (refused : expandParts bounds parts = .error fault) :
    ∃ part ∈ parts, fault.IsIn bounds part := by
  induction parts with
  | nil => cases refused
  | cons part others ih =>
      unfold expandParts at refused
      split at refused
      · rename_i inFirst unread
        cases refused
        exact ⟨part, List.mem_cons_self, (isIn_of_expandPart unread).within (Text.infix_trim part)⟩
      · split at refused
        · rename_i inOthers unread
          cases refused
          obtain ⟨later, member, isIn⟩ := ih unread
          exact ⟨later, List.mem_cons_of_mem _ member, isIn⟩
        · cases refused

/-- Whatever a field is refused for stands in it. -/
theorem isIn_of_expandField (refused : expandField bounds text = .error fault) :
    fault.IsIn bounds text := by
  unfold expandField at refused
  split at refused
  · cases expanded : expandParts bounds (Text.splitAt ',' text) with
    | ok values => simp [expanded, Except.map] at refused
    | error inParts =>
        simp only [expanded, Except.map, Except.error.injEq] at refused
        subst refused
        obtain ⟨part, member, isIn⟩ := isIn_of_expandParts expanded
        exact isIn.within (Text.infix_of_mem_splitAt member)
  · exact isIn_of_expandPart refused

end Recurrence.Crontab
