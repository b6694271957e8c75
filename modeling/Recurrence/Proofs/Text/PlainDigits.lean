import Recurrence.Proofs.Text.Classes
import Recurrence.Proofs.Text.Cutting
import Recurrence.Proofs.Text.LowerCase
import Recurrence.Proofs.Text.Numerals
import Recurrence.Proofs.Text.Words

namespace Recurrence.Text

/-! Scripts of digits. Each digit has a plain one of the same value, and nothing that is asked of a text
but which digit stands where tells them apart. So digits can be made plain before or after a text is
brought to lower case, cut into words or rid of a piece without digits. -/

variable {c d : Char} {text fixed : List Char}

def plainDigit (c : Char) : Char :=
  match digitValue? c with
  | some value => Char.ofNat ('0'.toNat + value)
  | none => c

def plainDigits (text : List Char) : List Char :=
  text.map plainDigit

def HasPlainDigits (text : List Char) : Prop :=
  ∀ c ∈ text, isDigit c = true → isPlainDigit c = true

/-! Single characters -/

theorem digitValue?_lt {value : Nat} (digit : digitValue? c = some value) : value < 10 := by
  obtain ⟨start, found, rfl⟩ := Option.map_eq_some_iff.mp digit
  have bounds := List.find?_some found
  simp only [Bool.and_eq_true, decide_eq_true_eq] at bounds
  omega

theorem plainDigit_of_not_digit (notDigit : isDigit c = false) : plainDigit c = c := by
  have none : digitValue? c = none := by simpa [isDigit] using notDigit
  rw [plainDigit, none]

theorem plainDigit_of_digit (digit : isDigit c = true) :
    isPlainDigit (plainDigit c) = true ∧ digitValue? (plainDigit c) = digitValue? c := by
  obtain ⟨value, known⟩ := Option.isSome_iff_exists.mp digit
  have plain : ∀ value < 10, isPlainDigit (Char.ofNat ('0'.toNat + value)) = true ∧
      digitValue? (Char.ofNat ('0'.toNat + value)) = some value := by decide
  rw [plainDigit, known]
  exact plain value (digitValue?_lt known)

theorem digitValue?_plainDigit (c : Char) : digitValue? (plainDigit c) = digitValue? c := by
  cases digit : isDigit c with
  | true => exact (plainDigit_of_digit digit).2
  | false => rw [plainDigit_of_not_digit digit]

theorem isDigit_plainDigit (c : Char) : isDigit (plainDigit c) = isDigit c := by
  rw [isDigit, digitValue?_plainDigit, isDigit]

/-- A class that all digits belong to, or none, does not tell them apart. -/
theorem inClass_plainDigit {inClass : Char → Bool} {all : Bool}
    (digits : ∀ c, isDigit c = true → inClass c = all) (c : Char) :
    inClass (plainDigit c) = inClass c := by
  cases digit : isDigit c with
  | true => rw [digits c digit, digits _ ((isDigit_plainDigit c).trans digit)]
  | false => rw [plainDigit_of_not_digit digit]

theorem isBlank_plainDigit (c : Char) : isBlank (plainDigit c) = isBlank c :=
  inClass_plainDigit (fun _ => isBlank_of_isDigit) c

theorem isWordChar_plainDigit (c : Char) : isWordChar (plainDigit c) = isWordChar c := by
  have digits : ∀ c, isDigit c = true → isWordChar c = true := by
    intro c digit
    simp [isWordChar, isDigitSign, digit]
  exact inClass_plainDigit digits c

theorem beq_plainDigit (notDigit : isDigit d = false) (c : Char) :
    (plainDigit c == d) = (c == d) := by
  have digits : ∀ c, isDigit c = true → (c == d) = false := by
    intro c digit
    refine beq_eq_false_iff_ne.mpr fun same => ?_
    rw [same, notDigit] at digit
    cases digit
  exact inClass_plainDigit digits c

theorem not_inRanges_of_isDigit {ranges : List CodeRange}
    (apart : zeros.all (fun start => ranges.all fun range =>
      Nat.blt range.2 start || Nat.ble (start + 10) range.1) = true)
    (digit : isDigit c = true) : inRanges ranges c.toNat = false := by
  refine Bool.eq_false_iff.mpr fun inside => ?_
  obtain ⟨start, inZeros, digitBounds⟩ := exists_start_of_isDigit digit
  obtain ⟨range, listed, bounds⟩ := exists_range_of_inRanges inside
  have sides := List.all_eq_true.mp (List.all_eq_true.mp apart start inZeros) range listed
  simp only [Bool.or_eq_true, Nat.blt_eq, Nat.ble_eq] at sides
  omega

theorem isCaseIgnorable_plainDigit (c : Char) : isCaseIgnorable (plainDigit c) = isCaseIgnorable c :=
  inClass_plainDigit (fun _ => not_inRanges_of_isDigit (by decide +kernel)) c

theorem isCased_plainDigit (c : Char) : isCased (plainDigit c) = isCased c :=
  inClass_plainDigit (fun _ => not_inRanges_of_isDigit (by decide +kernel)) c

/-! Texts -/

@[simp] theorem plainDigits_nil : plainDigits [] = [] := rfl

@[simp] theorem plainDigits_cons (c : Char) (rest : List Char) :
    plainDigits (c :: rest) = plainDigit c :: plainDigits rest := rfl

@[simp] theorem plainDigits_append (text further : List Char) :
    plainDigits (text ++ further) = plainDigits text ++ plainDigits further :=
  List.map_append

@[simp] theorem length_plainDigits (text : List Char) : (plainDigits text).length = text.length :=
  List.length_map ..

theorem plainDigits_of_no_digit (noDigit : text.any isDigit = false) : plainDigits text = text := by
  have fixes : ∀ c ∈ text, plainDigit c = id c := by
    intro c member
    exact plainDigit_of_not_digit (by simpa using List.any_eq_false.mp noDigit c member)
  rw [plainDigits, List.map_congr_left fixes, List.map_id]

theorem any_isDigit_plainDigits (text : List Char) :
    (plainDigits text).any isDigit = text.any isDigit := by
  simp only [plainDigits, List.any_map, Function.comp_def, isDigit_plainDigit]

/-- A text without digits is not taken for another one when digits are made plain. -/
theorem plainDigits_eq_iff (noDigit : fixed.any isDigit = false) :
    plainDigits text = fixed ↔ text = fixed := by
  constructor
  · intro same
    have noDigitInText : text.any isDigit = false := by
      rw [← any_isDigit_plainDigits, same, noDigit]
    rw [← same, plainDigits_of_no_digit noDigitInText]
  · rintro rfl
    exact plainDigits_of_no_digit noDigit

theorem prefix_plainDigits_iff (noDigit : fixed.any isDigit = false) :
    fixed <+: plainDigits text ↔ fixed <+: text := by
  rw [List.prefix_iff_eq_take, List.prefix_iff_eq_take, plainDigits, ← List.map_take]
  exact eq_comm.trans ((plainDigits_eq_iff noDigit).trans eq_comm)

/-! Lower case -/

theorem lowerChar_of_isDigit (digit : isDigit c = true) : lowerChar c = [c] := by
  have apart : capitalRuns.all (fun run => zeros.all fun start =>
      Nat.blt run.last start || Nat.ble (start + 10) run.first) = true := by decide +kernel
  have notDotted : c ≠ 'İ' := by
    rintro rfl
    exact absurd digit (by decide)
  refine lowerChar_of_uncovered notDotted fun run listed => ?_
  obtain ⟨start, inZeros, bounds⟩ := exists_start_of_isDigit digit
  have sides := List.all_eq_true.mp (List.all_eq_true.mp apart run listed) start inZeros
  simp only [Bool.or_eq_true, Nat.blt_eq, Nat.ble_eq] at sides
  simp only [CapitalRun.covers, Bool.and_eq_false_iff, decide_eq_false_iff_not]
  omega

/-- No capital has a digit for its small form. -/
theorem not_isDigit_of_mem_lowerChar (notDigit : isDigit c = false) :
    (lowerChar c).any isDigit = false := by
  have apart : capitalRuns.all (fun run => zeros.all fun start =>
      Nat.blt (run.last + run.offset).toNat start ||
        Nat.ble (start + 10) (run.first + run.offset).toNat) = true := by decide +kernel
  rcases lowerChar_cases c with same | dotted | ⟨run, listed, covers, small, single, code, _⟩
  · simp [same, notDigit]
  · rw [dotted]
    decide
  · have notSmall : isDigit small = false := by
      refine Bool.eq_false_iff.mpr fun digit => ?_
      obtain ⟨start, inZeros, bounds⟩ := exists_start_of_isDigit digit
      have sides := List.all_eq_true.mp (List.all_eq_true.mp apart run listed) start inZeros
      simp only [Bool.or_eq_true, Nat.blt_eq, Nat.ble_eq] at sides
      simp only [CapitalRun.covers, Bool.and_eq_true, decide_eq_true_eq] at covers
      omega
    simp [single, notSmall]

theorem lowerChar_plainDigit (c : Char) : lowerChar (plainDigit c) = plainDigits (lowerChar c) := by
  cases digit : isDigit c with
  | true =>
      rw [lowerChar_of_isDigit digit, lowerChar_of_isDigit ((isDigit_plainDigit c).trans digit)]
      rfl
  | false =>
      rw [plainDigit_of_not_digit digit,
        plainDigits_of_no_digit (not_isDigit_of_mem_lowerChar digit)]

theorem startsCased_plainDigits (text : List Char) :
    startsCased (plainDigits text) = startsCased text := by
  have sought : (!isCaseIgnorable ·) ∘ plainDigit = (!isCaseIgnorable ·) :=
    funext fun c => congrArg not (isCaseIgnorable_plainDigit c)
  rw [startsCased, plainDigits, List.find?_map, sought, startsCased]
  cases text.find? (!isCaseIgnorable ·) with
  | none => rfl
  | some c => exact isCased_plainDigit c

theorem lowerAfter_plainDigits (afterCased : Bool) (text : List Char) :
    lowerAfter afterCased (plainDigits text) = plainDigits (lowerAfter afterCased text) := by
  have sigmas : plainDigits ['ς'] = ['ς'] ∧ plainDigits ['σ'] = ['σ'] := by decide
  induction text generalizing afterCased with
  | nil => rfl
  | cons c rest ih =>
      simp only [plainDigits_cons, lowerAfter, plainDigits_append, ih, isCaseIgnorable_plainDigit,
        isCased_plainDigit, startsCased_plainDigits, lowerChar_plainDigit,
        beq_plainDigit (show isDigit 'Σ' = false by decide)]
      split
      · split
        · rw [sigmas.1]
        · rw [sigmas.2]
      · rfl

theorem lower_plainDigits (text : List Char) : lower (plainDigits text) = plainDigits (lower text) :=
  lowerAfter_plainDigits false text

/-! Pieces and words -/

theorem replaceAll_plainDigits {old new : String} (nonempty : old.toList ≠ [])
    (noDigitInOld : old.toList.any isDigit = false) (noDigitInNew : new.toList.any isDigit = false)
    (text : List Char) :
    replaceAll old new (plainDigits text) = plainDigits (replaceAll old new text) := by
  unfold replaceAll
  induction text using search_induction nonempty with
  | nil => rfl
  | skip c rest absent ih =>
      have stillAbsent : ¬ old.toList <+: plainDigits (c :: rest) :=
        mt (prefix_plainDigits_iff noDigitInOld).mp absent
      rw [plainDigits_cons] at stillAbsent
      rw [replaceAfter_cons absent, plainDigits_cons, replaceAfter_cons stillAbsent, ih,
        plainDigits_cons]
  | found rest ih =>
      rw [plainDigits_append, plainDigits_of_no_digit noDigitInOld, replaceAfter_append nonempty,
        replaceAfter_append nonempty, ih, plainDigits_append, plainDigits_of_no_digit noDigitInNew]

theorem words_plainDigits (text : List Char) :
    words (plainDigits text) = (words text).map plainDigits := by
  induction text with
  | nil => rfl
  | cons c rest ih =>
      cases rest with
      | nil =>
          rw [plainDigits_cons, plainDigits_nil, words_singleton, isBlank_plainDigit, words_singleton]
          split <;> rfl
      | cons next behind =>
          simp only [plainDigits_cons] at ih ⊢
          rw [words_cons_cons, words_cons_cons, ih, isBlank_plainDigit, isBlank_plainDigit]
          split
          · rfl
          · split
            · rfl
            · cases words (next :: behind) <;> rfl

theorem unwords_plainDigits (parts : List (List Char)) :
    unwords (parts.map plainDigits) = plainDigits (unwords parts) := by
  have space : plainDigit ' ' = ' ' := by decide
  induction parts with
  | nil => rfl
  | cons part others ih =>
      cases others with
      | nil => simp [unwords]
      | cons next further =>
          simp only [List.map_cons] at ih ⊢
          rw [unwords_cons_cons, unwords_cons_cons, ih, plainDigits_append, plainDigits_cons, space]

/-! Numbers -/

theorem filter_isDigit_plainDigits (text : List Char) :
    (plainDigits text).filter isDigit = plainDigits (text.filter isDigit) := by
  have sought : isDigit ∘ plainDigit = isDigit := funext isDigit_plainDigit
  rw [plainDigits, List.filter_map, sought, plainDigits]

theorem digitsValue_plainDigits (digits : List Char) :
    digitsValue (plainDigits digits) = digitsValue digits := by
  simp only [digitsValue, plainDigits, List.foldl_map, digitValue?_plainDigit]

theorem readDigits_plainDigits (digits : List Char) :
    readDigits (plainDigits digits) = readDigits digits := by
  rw [readDigits, length_plainDigits, digitsValue_plainDigits, readDigits]

end Recurrence.Text
