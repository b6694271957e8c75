import Recurrence.Calendar.Label
import Recurrence.Proofs.Text.Numerals
import Recurrence.Proofs.Text.Words

namespace Recurrence

/-! Labels of moments. They are written in plain visible characters, with no blanks around them. -/

/-- Texts of plain visible characters and spaces. -/
def IsVisible (text : List Char) : Prop :=
  ∀ c ∈ text, ' ' ≤ c ∧ c ≤ '~'

instance (text : List Char) : Decidable (IsVisible text) :=
  List.decidableBAll _ text

variable {text further : List Char}

theorem IsVisible.append (first : IsVisible text) (last : IsVisible further) :
    IsVisible (text ++ further) :=
  List.forall_mem_append.mpr ⟨first, last⟩

theorem IsVisible.cons {c : Char} (visible : ' ' ≤ c ∧ c ≤ '~') (behind : IsVisible text) :
    IsVisible (c :: text) :=
  List.forall_mem_cons.mpr ⟨visible, behind⟩

theorem isVisible_decimal (n : Nat) : IsVisible (Text.decimal n) := by
  intro c member
  have digit := Text.isPlainDigit_of_mem_decimal member
  simp only [Text.isPlainDigit, Bool.and_eq_true, decide_eq_true_eq] at digit
  exact ⟨Char.le_trans (by decide) digit.1, Char.le_trans digit.2 (by decide)⟩

theorem isVisible_signed (n : Int) : IsVisible (Text.signed n) := by
  unfold Text.signed
  split
  · exact (isVisible_decimal _).cons (by decide)
  · exact isVisible_decimal _

theorem isVisible_padded (width : Nat) (n : Int) : IsVisible (Text.padded width n) := by
  have sign : IsVisible (if n < 0 then ['-'] else []) := by split <;> decide
  have zeros (count : Nat) : IsVisible (List.replicate count '0') := by
    intro c member
    rw [List.eq_of_mem_replicate member]
    decide
  exact (sign.append (zeros _)).append (isVisible_decimal _)

theorem Month.isVisible_shortName (month : Nat) : IsVisible (Month.shortName month) := by
  have named : ∀ name ∈ Month.names, IsVisible name.toList := by decide
  intro c member
  have inName : c ∈ Month.name month := List.mem_of_mem_take member
  cases month with
  | zero => cases inName
  | succ before =>
      cases found : Month.names[before]? with
      | none => simp [Month.name, Month.name?, found] at inName
      | some name =>
          have same : Month.name (before + 1) = name.toList := by
            simp [Month.name, Month.name?, found]
          exact named name (List.mem_of_getElem? found) c (same ▸ inName)

namespace Moment

theorem isVisible_label (moment : Moment) : IsVisible moment.label := by
  have day : IsVisible moment.date.weekday.shortName := by
    cases moment.date.weekday <;> decide
  have month := Month.isVisible_shortName moment.date.month
  have half : IsVisible moment.meridiem.toList := by
    unfold meridiem
    split <;> decide
  have comma : IsVisible ", ".toList := by decide
  have number := isVisible_decimal
  exact ((((((((day.append comma).append month).append ((number _).cons (by decide))).append
    comma).append (number _)).append comma).append (number _)).append
      ((isVisible_padded 2 _).cons (by decide))).append (half.cons (by decide))

theorem trim_label (moment : Moment) : Text.trim moment.label = moment.label := by
  refine Text.trim_of_ends (fun c first => ?_) fun c last => ?_
  · unfold label at first
    cases day : moment.date.weekday <;> rw [day] at first <;> cases first <;> decide
  · have ends : moment.label.getLast? = some 'M' := by
      unfold label meridiem
      rw [List.getLast?_append]
      split <;> rfl
    cases ends.symm.trans last
    decide

theorem isVisible_inUnits {unit : String} (visible : IsVisible unit.toList) (count : Int) :
    IsVisible (inUnits count unit) := by
  have plural : IsVisible (if count = 1 then [] else ['s']) := by split <;> decide
  exact ((IsVisible.append (by decide) (isVisible_signed count)).append
    (visible.cons (by decide))).append plural

theorem trim_inUnits {unit : String}
    (ends : (' ' :: unit.toList).getLast?.any Text.isBlank = false) (count : Int) :
    Text.trim (inUnits count unit) = inUnits count unit := by
  refine Text.trim_of_ends (fun c first => ?_) fun c last => ?_
  · cases first
    decide
  · unfold inUnits at last
    rw [List.getLast?_append] at last
    split at last
    · rw [List.getLast?_nil, Option.none_or, List.getLast?_append,
        List.getLast?_eq_some_getLast (List.cons_ne_nil _ _)] at last
      have ending : (' ' :: unit.toList).getLast? = some c :=
        List.getLast?_eq_some_getLast (List.cons_ne_nil _ _) ▸ last
      rwa [ending, Option.any_some] at ends
    · cases last
      decide

theorem relativeLabel_cases (moment now : Moment) :
    moment.relativeLabel now = "in less than a minute".toList ∨
      (∃ count, ∃ unit ∈ ["minute", "hour", "day"], moment.relativeLabel now = inUnits count unit) ∨
        moment.relativeLabel now = moment.label := by
  simp only [relativeLabel]
  repeat' split
  · exact Or.inl rfl
  · exact Or.inr (Or.inl ⟨_, _, by decide, rfl⟩)
  · exact Or.inr (Or.inl ⟨_, _, by decide, rfl⟩)
  · exact Or.inr (Or.inl ⟨_, _, by decide, rfl⟩)
  · exact Or.inr (Or.inr rfl)

theorem isVisible_relativeLabel (moment now : Moment) : IsVisible (moment.relativeLabel now) := by
  have units : ∀ unit ∈ ["minute", "hour", "day"], IsVisible unit.toList := by decide
  rcases relativeLabel_cases moment now with soon | ⟨count, unit, known, inUnit⟩ | full
  · rw [soon]
    decide
  · rw [inUnit]
    exact isVisible_inUnits (units unit known) count
  · rw [full]
    exact isVisible_label moment

theorem trim_relativeLabel (moment now : Moment) :
    Text.trim (moment.relativeLabel now) = moment.relativeLabel now := by
  have units : ∀ unit ∈ ["minute", "hour", "day"],
      (' ' :: unit.toList).getLast?.any Text.isBlank = false := by decide
  rcases relativeLabel_cases moment now with soon | ⟨count, unit, known, inUnit⟩ | full
  · rw [soon]
    decide
  · rw [inUnit]
    exact trim_inUnits (units unit known) count
  · rw [full]
    exact trim_label moment

end Moment

end Recurrence
