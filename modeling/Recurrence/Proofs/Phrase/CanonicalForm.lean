import Mathlib.Logic.Function.Iterate
import Recurrence.Proofs.Phrase.Canonical
import Recurrence.Proofs.Text.Neat

namespace Recurrence.Phrase

/-! Canonical forms. A pass that changes what another pass has left takes a filler out, so that fewer
characters other than blanks remain, and the passes come to an end. What no pass changes is a text
of a simple form, in which there is nothing left to be rewritten. -/

def fillers : List String := ["o'clock", "every single", "each and every"]

/-- No half of the day stands directly behind a digit. -/
def MeridiemApart (text : List Char) : Prop :=
  ∀ d half, Text.isDigit d = true → half ∈ ['a', 'p'] → ¬ [d, half, 'm'] <:+: text

/-- The texts that are their own canonical form. -/
structure IsCanonical (text : List Char) : Prop where
  lowerCase : Text.lower text = text
  neat : Text.IsNeat text
  noFiller : ∀ filler ∈ fillers, ¬ filler.toList <:+: text
  meridiemApart : MeridiemApart text

/-- How many characters of a text are not blank. -/
def weight (text : List Char) : Nat :=
  text.countP (!Text.isBlank ·)

variable {text : List Char} {c : Char}

/-! Fillers -/

/-- A rewriting that changes just the texts with something to rewrite, and makes them lighter. -/
def Lightens (absent : List Char → Prop) (rewrite : List Char → List Char) : Prop :=
  ∀ text, absent text ∧ rewrite text = text ∨ ¬ absent text ∧ weight (rewrite text) < weight text

theorem Lightens.comp {absent further : List Char → Prop} {first second : List Char → List Char}
    (lightens : Lightens absent first) (lightensFurther : Lightens further second) :
    Lightens (fun text => absent text ∧ further text) (second ∘ first) := by
  intro text
  rw [Function.comp_apply]
  rcases lightens text with ⟨none, same⟩ | ⟨found, lighter⟩
  · rw [same]
    rcases lightensFurther text with ⟨noneFurther, same⟩ | ⟨found, lighter⟩
    · exact Or.inl ⟨⟨none, noneFurther⟩, same⟩
    · exact Or.inr ⟨fun both => found both.2, lighter⟩
  · refine Or.inr ⟨fun both => found both.1, ?_⟩
    rcases lightensFurther (first text) with ⟨_, same⟩ | ⟨_, lighterStill⟩
    · rwa [same]
    · exact lighterStill.trans lighter

theorem lightens_replaceAll {old new : String} (lighter : weight new.toList < weight old.toList) :
    Lightens (fun text => ¬ old.toList <:+: text) (Text.replaceAll old new) := by
  intro text
  rw [not_not]
  exact Text.replaceAll_cases (!Text.isBlank ·) lighter text

theorem lightens_dropFillers :
    Lightens (fun text => ∀ filler ∈ fillers, ¬ filler.toList <:+: text) dropFillers := by
  have clock : Lightens _ (Text.replaceAll "o'clock" "") := lightens_replaceAll (by decide)
  have single : Lightens _ (Text.replaceAll "every single" "every") :=
    lightens_replaceAll (by decide)
  have each : Lightens _ (Text.replaceAll "each and every" "every") :=
    lightens_replaceAll (by decide)
  have together : Lightens _ dropFillers := (clock.comp single).comp each
  simpa only [fillers, List.forall_mem_cons, List.not_mem_nil, false_implies, implies_true,
    and_true, and_assoc] using together

theorem mem_of_mem_dropFillers (member : c ∈ dropFillers text) :
    c ∈ "every".toList ∨ c ∈ text := by
  rcases Text.mem_of_mem_replaceAll (by decide) member with added | within
  · exact Or.inl added
  · rcases Text.mem_of_mem_replaceAll (by decide) within with added | within
    · exact Or.inl added
    · exact (Text.mem_of_mem_replaceAll (by decide) within).imp_left nofun

/-! Halves of the day -/

theorem weight_separateMeridiem (text : List Char) :
    weight (separateMeridiem text) = weight text := by
  unfold weight
  induction text with
  | nil => rfl
  | cons c rest ih =>
      have blank : Text.isBlank ' ' = true := by decide
      rcases separateMeridiem_cons c rest with ⟨_, apart⟩ | ⟨_, kept⟩
      · simp [apart, List.countP_cons, ih, blank]
      · rw [kept, List.countP_cons, List.countP_cons, ih]

theorem mem_of_mem_separateMeridiem (member : c ∈ separateMeridiem text) : c = ' ' ∨ c ∈ text := by
  induction text with
  | nil => cases member
  | cons d rest ih =>
      rw [List.mem_cons]
      rcases separateMeridiem_cons d rest with ⟨_, apart⟩ | ⟨_, kept⟩
      · rw [apart, List.mem_cons, List.mem_cons] at member
        tauto
      · rw [kept, List.mem_cons] at member
        tauto

theorem head?_separateMeridiem (text : List Char) :
    (separateMeridiem text).head? = text.head? := by
  cases text with
  | nil => rfl
  | cons c rest =>
      rcases separateMeridiem_cons c rest with ⟨_, apart⟩ | ⟨_, kept⟩
      · rw [apart, List.head?_cons, List.head?_cons]
      · rw [kept, List.head?_cons, List.head?_cons]

theorem prefix_of_prefix_separateMeridiem (notDigit : Text.isDigit c = false)
    (front : [c, 'm'] <+: separateMeridiem text) : [c, 'm'] <+: text := by
  have same := head?_separateMeridiem text
  obtain ⟨behind, whole⟩ := front
  cases text with
  | nil => cases whole
  | cons d rest =>
      rw [← whole] at same
      cases same
      rw [separateMeridiem_cons_of_not_digit notDigit] at whole
      have next := head?_separateMeridiem rest
      rw [← (List.cons.inj whole).2] at next
      cases rest with
      | nil => cases next
      | cons e rest =>
          cases next
          exact ⟨rest, rfl⟩

theorem meridiemApart_cons_iff {rest : List Char} :
    MeridiemApart (c :: rest) ↔ ¬ IsMeridiemAt c rest ∧ MeridiemApart rest := by
  simp only [MeridiemApart, IsMeridiemAt, List.infix_cons_iff, List.cons_prefix_cons, not_or,
    not_and, not_exists]
  constructor
  · intro apart
    exact ⟨fun digit half isHalf => (apart c half digit isHalf).1 rfl,
      fun d half digit isHalf => (apart d half digit isHalf).2⟩
  · rintro ⟨here, behind⟩ d half digit isHalf
    refine ⟨?_, behind d half digit isHalf⟩
    rintro rfl
    exact here digit half isHalf

theorem isMeridiemAt_of_separateMeridiem {rest : List Char}
    (meridiem : IsMeridiemAt c (separateMeridiem rest)) : IsMeridiemAt c rest := by
  obtain ⟨digit, half, isHalf, front⟩ := meridiem
  exact ⟨digit, half, isHalf, prefix_of_prefix_separateMeridiem (isDigit_of_isHalf isHalf) front⟩

theorem meridiemApart_separateMeridiem (text : List Char) :
    MeridiemApart (separateMeridiem text) := by
  induction text with
  | nil => exact fun _ _ _ _ within => absurd (List.infix_nil.mp within) nofun
  | cons c rest ih =>
      rcases separateMeridiem_cons c rest with ⟨_, apart⟩ | ⟨notMeridiem, kept⟩
      · rw [apart, meridiemApart_cons_iff, meridiemApart_cons_iff]
        refine ⟨?_, fun meridiem => absurd meridiem.1 (by decide), ih⟩
        rintro ⟨_, half, isHalf, front⟩
        rw [(List.cons_prefix_cons.mp front).1] at isHalf
        exact absurd isHalf (by decide)
      · rw [kept, meridiemApart_cons_iff]
        exact ⟨fun meridiem => notMeridiem (isMeridiemAt_of_separateMeridiem meridiem), ih⟩

theorem separateMeridiem_of_apart (apart : MeridiemApart text) : separateMeridiem text = text := by
  induction text with
  | nil => rfl
  | cons c rest ih =>
      obtain ⟨notMeridiem, apartBehind⟩ := meridiemApart_cons_iff.mp apart
      rcases separateMeridiem_cons c rest with ⟨meridiem, _⟩ | ⟨_, kept⟩
      · exact absurd meridiem notMeridiem
      · rw [kept, ih apartBehind]

/-! Passes -/

theorem weight_pass (text : List Char) :
    weight (pass text) = weight (dropFillers (Text.lower text)) :=
  (Text.isSpaced_words _).countP_unwords.trans (weight_separateMeridiem _)

theorem isSmall_of_mem_pass (member : c ∈ pass text) : Text.IsSmall c := by
  have put {c : Char} : c ∈ " every".toList → Text.IsSmall c :=
    Text.isSmall_of_all " every".toList (by decide +kernel)
  have space : Text.IsSmall ' ' := put (by decide)
  rcases Text.mem_unwords member with rfl | ⟨word, isWord, inWord⟩
  · exact space
  · have within := ((Text.isSpaced_words _).isInfix isWord).subset inWord
    rcases mem_of_mem_separateMeridiem within with rfl | within
    · exact space
    · rcases mem_of_mem_dropFillers within with added | within
      · exact put (List.mem_cons_of_mem _ added)
      · exact Text.isSmall_of_mem_lower within

theorem lower_pass (text : List Char) : Text.lower (pass text) = pass text :=
  Text.lower_of_fixed fun _ member => isSmall_of_mem_pass member

theorem meridiemApart_pass (text : List Char) : MeridiemApart (pass text) := by
  intro d half digit isHalf within
  have noSpace : ' ' ∉ [d, half, 'm'] := by
    have halves : ' ' ∉ ['a', 'p'] := by decide
    simp only [List.mem_cons, List.not_mem_nil, not_or, or_false]
    refine ⟨?_, ?_, by decide⟩
    · rintro rfl
      exact absurd digit (by decide)
    · rintro rfl
      exact halves isHalf
  obtain ⟨word, isWord, inWord⟩ := (Text.infix_unwords_iff (List.cons_ne_nil _ _) noSpace).mp within
  exact meridiemApart_separateMeridiem _ d half digit isHalf
    (inWord.trans ((Text.isSpaced_words _).isInfix isWord))

theorem isCanonical_pass_or (text : List Char) :
    IsCanonical (pass text) ∨ weight (pass (pass text)) < weight (pass text) := by
  rw [weight_pass (pass text), lower_pass]
  refine (lightens_dropFillers (pass text)).imp (fun unchanged => ?_) And.right
  exact ⟨lower_pass text, Text.isNeat_unwords fun word => Text.isWord_of_mem_words, unchanged.1,
    meridiemApart_pass text⟩

theorem IsCanonical.pass_eq (isCanonical : IsCanonical text) : pass text = text := by
  obtain ⟨lowerCase, neat, noFiller, meridiemApart⟩ := isCanonical
  have unchanged : dropFillers text = text :=
    ((lightens_dropFillers text).resolve_right fun found => found.1 noFiller).2
  rw [pass, lowerCase, unchanged, separateMeridiem_of_apart meridiemApart,
    Text.unwords_words_eq_self_iff.mpr neat]

/-- What no pass changes are the canonical texts. -/
theorem pass_eq_self_iff : pass text = text ↔ IsCanonical text := by
  refine ⟨fun same => ?_, IsCanonical.pass_eq⟩
  rcases isCanonical_pass_or text with isCanonical | fewer
  · exact same ▸ isCanonical
  · rw [same, same] at fewer
    exact absurd fewer (lt_irrefl _)

/-! Repeated passes -/

/-- If every step but the first makes the text lighter or changes nothing, then settling ends at the
first text that the step does not change. -/
theorem settle_spec {step : List Char → List Char}
    (lighter : ∀ text, step (step text) ≠ step text → weight (step (step text)) < weight (step text))
    (limit : Nat) (text : List Char) (enough : weight (step text) < limit) :
    ∃ count, settle step limit (step text) = step^[count + 1] text ∧
      step^[count + 2] text = step^[count + 1] text ∧
      ∀ earlier < count, step^[earlier + 2] text ≠ step^[earlier + 1] text := by
  induction limit generalizing text with
  | zero => exact absurd enough (Nat.not_lt_zero _)
  | succ limit ih =>
      rw [settle]
      split
      · rename_i settled
        exact ⟨0, rfl, settled, fun earlier before => absurd before (Nat.not_lt_zero earlier)⟩
      · rename_i changed
        have less := lighter text changed
        obtain ⟨count, result, settled, unsettled⟩ := ih (step text) (by omega)
        refine ⟨count + 1, result, settled, fun earlier before => ?_⟩
        cases earlier with
        | zero => exact changed
        | succ earlier => exact unsettled earlier (Nat.lt_of_succ_lt_succ before)

theorem pass_lighter (text : List Char) (changed : pass (pass text) ≠ pass text) :
    weight (pass (pass text)) < weight (pass text) :=
  (isCanonical_pass_or text).resolve_left fun isCanonical => changed isCanonical.pass_eq

theorem canonical_spec (text : List Char) :
    ∃ count, canonical text = pass^[count + 1] text ∧ pass^[count + 2] text = pass^[count + 1] text ∧
      ∀ earlier < count, pass^[earlier + 2] text ≠ pass^[earlier + 1] text :=
  settle_spec pass_lighter _ text (Nat.lt_succ_of_le List.countP_le_length)

theorem IsCanonical.canonical_eq (isCanonical : IsCanonical text) : canonical text = text := by
  rw [canonical, isCanonical.pass_eq, settle, if_pos isCanonical.pass_eq]

/-- Repeating the pass comes to an end for every text, at the first pass that changes nothing. The
result has nothing left to be rewritten, and it is its own canonical form. -/
theorem canonical_isCanonical (text : List Char) :
    (∃ count, canonical text = pass^[count + 1] text ∧
        pass^[count + 2] text = pass^[count + 1] text ∧
        ∀ earlier < count, pass^[earlier + 2] text ≠ pass^[earlier + 1] text) ∧
      IsCanonical (canonical text) ∧ canonical (canonical text) = canonical text := by
  obtain ⟨count, result, settled, unsettled⟩ := canonical_spec text
  have isCanonical : IsCanonical (canonical text) := by
    rw [← pass_eq_self_iff, result]
    exact (Function.iterate_succ_apply' pass (count + 1) text).symm.trans settled
  exact ⟨⟨count, result, settled, unsettled⟩, isCanonical, isCanonical.canonical_eq⟩

-- The filler that the first pass takes out leaves another one, which the second takes out.
example : canonical "9o'clo'clockock AM  Each and EVERY day".toList = "9 am every day".toList := by
  decide +kernel

end Recurrence.Phrase
