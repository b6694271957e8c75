import Recurrence.Crontab.Timetable
import Recurrence.Proofs.Text.Cutting
import Recurrence.Proofs.Text.Words

namespace Recurrence.Crontab

/-! The field grammar as a set of written forms. `Part.Writes` says which texts a part may be
written as, `Part.Fits` when its numbers lie in a field, and `expandPart` accepts exactly the
texts that some fitting part is written as. -/

inductive Part where
  | star
  | starStep (step : Nat)
  | range (first last : Nat)
  | rangeStep (first last step : Nat)
  | single (value : Nat)
deriving DecidableEq, Repr

namespace Part

inductive Writes : Part → List Char → Prop
  | star : Writes .star ['*']
  | starStep {step : Nat} {stepText : List Char} (reads : plainNumber? stepText = some step) :
      Writes (.starStep step) ('*' :: '/' :: stepText)
  | range {first last : Nat} {firstText lastText : List Char}
      (readsFirst : plainNumber? firstText = some first)
      (readsLast : plainNumber? lastText = some last) :
      Writes (.range first last) (firstText ++ '-' :: lastText)
  | rangeStep {first last step : Nat} {firstText lastText stepText : List Char}
      (readsFirst : plainNumber? firstText = some first)
      (readsLast : plainNumber? lastText = some last)
      (readsStep : plainNumber? stepText = some step) :
      Writes (.rangeStep first last step) ((firstText ++ '-' :: lastText) ++ '/' :: stepText)
  | single {value : Nat} {text : List Char} (reads : plainNumber? text = some value) :
      Writes (.single value) text

def Fits (bounds : Bounds) : Part → Prop
  | .star => True
  | .starStep step => 1 ≤ step ∧ (step : Int) ≤ bounds.max
  | .range first last => bounds.min ≤ first ∧ first ≤ last ∧ (last : Int) ≤ bounds.max
  | .rangeStep first last step =>
      (bounds.min ≤ first ∧ first ≤ last ∧ (last : Int) ≤ bounds.max) ∧
        1 ≤ step ∧ (step : Int) ≤ bounds.max
  | .single value => bounds.min ≤ value ∧ (value : Int) ≤ bounds.max

def values (bounds : Bounds) : Part → List Int
  | .star => stepped bounds.min bounds.max 1
  | .starStep step => stepped bounds.min bounds.max step
  | .range first last => stepped first last 1
  | .rangeStep first last step => stepped first last step
  | .single value => [(value : Int)]

end Part

/-! Numbers -/

theorem plainNumber?_digits {text : List Char} {n : Nat} (reads : plainNumber? text = some n) :
    text ≠ [] ∧ ∀ c ∈ text, Text.isPlainDigit c = true := by
  unfold plainNumber? at reads
  split at reads
  · rename_i digits
    exact ⟨digits.1, List.all_eq_true.mp digits.2⟩
  · cases reads

theorem not_mem_of_plainNumber? {text : List Char} {n : Nat} (reads : plainNumber? text = some n)
    {c : Char} (other : Text.isPlainDigit c = false) : c ∉ text := by
  intro member
  rw [(plainNumber?_digits reads).2 c member] at other
  cases other

theorem plainNumber?_ne_star {text : List Char} {n : Nat} (reads : plainNumber? text = some n)
    (behind : List Char) : text ++ behind ≠ ['*'] := by
  obtain ⟨nonempty, digits⟩ := plainNumber?_digits reads
  cases text with
  | nil => exact absurd rfl nonempty
  | cons c rest =>
      intro same
      cases (List.cons.inj same).1
      exact absurd (digits '*' List.mem_cons_self) (by decide)

theorem slash_not_mem_range {firstText lastText : List Char} {first last : Nat}
    (readsFirst : plainNumber? firstText = some first)
    (readsLast : plainNumber? lastText = some last) : '/' ∉ firstText ++ '-' :: lastText := by
  have notFirst := not_mem_of_plainNumber? readsFirst (c := '/') (by decide)
  have notLast := not_mem_of_plainNumber? readsLast (c := '/') (by decide)
  simp [notFirst, notLast]

theorem readNumber_eq_ok_iff {label text : List Char} {value : Int} :
    readNumber label text = .ok value ↔ ∃ n : Nat, plainNumber? text = some n ∧ value = n := by
  unfold readNumber plainNumber?
  split
  · cases Text.readDigits text with
    | error fault => simp [Except.toOption]
    | ok n => simp [Except.toOption, eq_comm]
  · simp

theorem readNumber_of_plainNumber? {text : List Char} {n : Nat} (reads : plainNumber? text = some n)
    (label : List Char) : readNumber label text = .ok (n : Int) :=
  readNumber_eq_ok_iff.mpr ⟨n, reads, rfl⟩

/-! Steps -/

variable {bounds : Bounds} {text base : List Char} {values : List Int} {step : Int}

theorem readStep_of_not_mem (absent : '/' ∉ text) : readStep bounds text = .ok (text, 1) := by
  simp [readStep, Text.splitFirst?_eq_none_iff.mpr absent]

theorem readStep_append {stepText : List Char} {n : Nat} (absent : '/' ∉ base)
    (reads : plainNumber? stepText = some n) (positive : 1 ≤ n) (bounded : (n : Int) ≤ bounds.max)
    (ranged : base = ['*'] ∨ '-' ∈ base) :
    readStep bounds (base ++ '/' :: stepText) = .ok (base, (n : Int)) := by
  unfold readStep
  rw [Text.splitFirst?_append '/' absent]
  simp only [readNumber_of_plainNumber? reads]
  rw [if_neg (by omega), if_neg (by simpa using fun notStar => ranged.resolve_left notStar)]

theorem readStep_ok (read : readStep bounds text = .ok (base, step)) :
    ('/' ∉ text ∧ base = text ∧ step = 1) ∨
      ∃ stepText n, text = base ++ '/' :: stepText ∧ '/' ∉ base ∧
        plainNumber? stepText = some n ∧ step = (n : Int) ∧ 1 ≤ n ∧ (n : Int) ≤ bounds.max ∧
        (base = ['*'] ∨ '-' ∈ base) := by
  unfold readStep at read
  cases cut : Text.splitFirst? '/' text with
  | none =>
      simp only [cut, Except.ok.injEq, Prod.mk.injEq] at read
      exact Or.inl ⟨Text.splitFirst?_eq_none_iff.mp cut, read.1.symm, read.2.symm⟩
  | some pieces =>
      obtain ⟨before, stepText⟩ := pieces
      obtain ⟨whole, absent⟩ := Text.eq_append_of_splitFirst? cut
      cases number : readNumber (bounds.label ++ " step".toList) stepText with
      | error fault => simp only [cut, number, reduceCtorEq] at read
      | ok value =>
          obtain ⟨n, reads, rfl⟩ := readNumber_eq_ok_iff.mp number
          simp only [cut, number] at read
          split at read
          · cases read
          · rename_i inRange
            split at read
            · cases read
            · rename_i ranged
              cases read
              refine Or.inr ⟨stepText, n, whole, absent, reads, rfl, by omega, by omega, ?_⟩
              by_cases star : base = ['*']
              · exact Or.inl star
              · exact Or.inr (by simpa [star] using ranged)

/-! Bases -/

theorem expandBase_star (bounds : Bounds) (step : Int) :
    expandBase bounds ['*'] step = .ok (stepped bounds.min bounds.max step) := by
  simp [expandBase]

theorem expandBase_range {firstText lastText : List Char} {first last : Nat}
    (readsFirst : plainNumber? firstText = some first)
    (readsLast : plainNumber? lastText = some last)
    (fits : bounds.min ≤ first ∧ first ≤ last ∧ (last : Int) ≤ bounds.max) :
    expandBase bounds (firstText ++ '-' :: lastText) step = .ok (stepped first last step) := by
  have cut := Text.splitFirst?_append '-'
    (not_mem_of_plainNumber? readsFirst (by decide)) lastText
  unfold expandBase
  rw [if_neg (plainNumber?_ne_star readsFirst _)]
  simp only [cut, readNumber_of_plainNumber? readsFirst, readNumber_of_plainNumber? readsLast]
  rw [if_neg (by omega)]

theorem expandBase_single {value : Nat} (reads : plainNumber? base = some value)
    (fits : bounds.min ≤ value ∧ (value : Int) ≤ bounds.max) :
    expandBase bounds base step = .ok [(value : Int)] := by
  have uncut := Text.splitFirst?_eq_none_iff.mpr
    (not_mem_of_plainNumber? reads (c := '-') (by decide))
  unfold expandBase
  rw [if_neg (by simpa using plainNumber?_ne_star reads [])]
  simp only [uncut, readNumber_of_plainNumber? reads]
  rw [if_neg (by omega)]

theorem expandBase_ok (read : expandBase bounds base step = .ok values) :
    (base = ['*'] ∧ values = stepped bounds.min bounds.max step) ∨
      (∃ first last firstText lastText, base = firstText ++ '-' :: lastText ∧
        plainNumber? firstText = some first ∧ plainNumber? lastText = some last ∧
        (bounds.min ≤ first ∧ first ≤ last ∧ (last : Int) ≤ bounds.max) ∧
        values = stepped first last step) ∨
      ∃ value, plainNumber? base = some value ∧
        (bounds.min ≤ value ∧ (value : Int) ≤ bounds.max) ∧ values = [(value : Int)] := by
  unfold expandBase at read
  split at read
  · rename_i star
    cases read
    exact Or.inl ⟨star, rfl⟩
  · cases cut : Text.splitFirst? '-' base with
    | some pieces =>
        obtain ⟨firstText, lastText⟩ := pieces
        cases readFirst : readNumber bounds.label firstText with
        | error fault => simp [cut, readFirst] at read
        | ok first =>
            cases readLast : readNumber bounds.label lastText with
            | error fault => simp [cut, readFirst, readLast] at read
            | ok last =>
                obtain ⟨first, readsFirst, rfl⟩ := readNumber_eq_ok_iff.mp readFirst
                obtain ⟨last, readsLast, rfl⟩ := readNumber_eq_ok_iff.mp readLast
                simp only [cut, readFirst, readLast] at read
                split at read
                · cases read
                · rename_i fits
                  cases read
                  exact Or.inr (Or.inl ⟨first, last, firstText, lastText,
                    (Text.eq_append_of_splitFirst? cut).1, readsFirst, readsLast, by omega, rfl⟩)
    | none =>
        cases readValue : readNumber bounds.label base with
        | error fault => simp [cut, readValue] at read
        | ok value =>
            obtain ⟨value, reads, rfl⟩ := readNumber_eq_ok_iff.mp readValue
            simp only [cut, readValue] at read
            split at read
            · cases read
            · rename_i fits
              cases read
              exact Or.inr (Or.inr ⟨value, reads, by omega, rfl⟩)

/-! Parts -/

theorem expandPart_of_readStep (nonempty : text ≠ [])
    (read : readStep bounds text = .ok (base, step)) :
    expandPart bounds text = expandBase bounds base step := by
  simp [expandPart, nonempty, read]

/-- A part is accepted, with the values it stands for, exactly if it fits and is written as
the grammar says. -/
theorem expandPart_eq_ok_iff :
    expandPart bounds text = .ok values ↔
      ∃ part : Part, part.Writes text ∧ part.Fits bounds ∧ values = part.values bounds := by
  constructor
  · intro accepted
    have nonempty : text ≠ [] := by
      intro empty
      subst empty
      simp [expandPart] at accepted
    cases stepRead : readStep bounds text with
    | error fault => simp [expandPart, nonempty, stepRead] at accepted
    | ok found =>
        obtain ⟨base, step⟩ := found
        rw [expandPart_of_readStep nonempty stepRead] at accepted
        rcases readStep_ok stepRead with ⟨_, rfl, rfl⟩ |
          ⟨stepText, n, rfl, _, readsStep, rfl, positive, bounded, ranged⟩
        · rcases expandBase_ok accepted with ⟨rfl, rfl⟩ |
            ⟨first, last, _, _, rfl, readsFirst, readsLast, fits, rfl⟩ | ⟨value, reads, fits, rfl⟩
          · exact ⟨.star, .star, trivial, rfl⟩
          · exact ⟨.range first last, .range readsFirst readsLast, fits, rfl⟩
          · exact ⟨.single value, .single reads, fits, rfl⟩
        · rcases expandBase_ok accepted with ⟨rfl, rfl⟩ |
            ⟨first, last, _, _, rfl, readsFirst, readsLast, fits, rfl⟩ | ⟨value, reads, fits, rfl⟩
          · exact ⟨.starStep n, .starStep readsStep, ⟨positive, bounded⟩, rfl⟩
          · exact ⟨.rangeStep first last n, .rangeStep readsFirst readsLast readsStep,
              ⟨fits, positive, bounded⟩, rfl⟩
          · rcases ranged with rfl | hyphen
            · exact absurd (plainNumber?_ne_star reads []) (by simp)
            · exact absurd hyphen (not_mem_of_plainNumber? reads (by decide))
  · intro written
    obtain ⟨part, writes, fits, rfl⟩ := written
    cases writes with
    | star =>
        rw [expandPart_of_readStep (List.cons_ne_nil _ _) (readStep_of_not_mem (by decide))]
        exact expandBase_star bounds 1
    | @starStep step stepText reads =>
        have absent : '/' ∉ ['*'] := by decide
        have read := readStep_append absent reads fits.1 fits.2 (Or.inl rfl)
        rw [List.singleton_append] at read
        rw [expandPart_of_readStep (List.cons_ne_nil _ _) read]
        exact expandBase_star bounds step
    | range readsFirst readsLast =>
        have noStep := slash_not_mem_range readsFirst readsLast
        rw [expandPart_of_readStep (by simp) (readStep_of_not_mem noStep)]
        exact expandBase_range readsFirst readsLast fits
    | rangeStep readsFirst readsLast readsStep =>
        have noStep := slash_not_mem_range readsFirst readsLast
        rw [expandPart_of_readStep (by simp)
          (readStep_append noStep readsStep fits.2.1 fits.2.2 (Or.inr (by simp)))]
        exact expandBase_range readsFirst readsLast fits.1
    | single reads =>
        rw [expandPart_of_readStep (plainNumber?_digits reads).1
          (readStep_of_not_mem (not_mem_of_plainNumber? reads (by decide)))]
        exact expandBase_single reads fits

end Recurrence.Crontab
