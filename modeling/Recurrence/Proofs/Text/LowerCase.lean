import Recurrence.Proofs.Text.Cutting

namespace Recurrence.Text

/-! Small forms. Characters below the letters are the small forms of themselves only, so they
survive where a text is brought to lower case, and a comma keeps what stands on its two sides
apart. -/

variable {c d : Char} {text : List Char}

/-! Single characters -/

theorem toNat_ofNat {n : Nat} (valid : n.isValidChar) : (Char.ofNat n).toNat = n := by
  rw [Char.ofNat, dif_pos valid]
  rfl

/-- Capitals and their small forms lie among the letters and behind them; all small forms are
characters, and only one capital has the small form `l`. -/
theorem capitalRuns_ranges : ∀ run ∈ capitalRuns,
    (65 ≤ run.first ∧ (run.last ≤ 90 ∨ 123 ≤ run.first)) ∧ 65 ≤ run.first + run.offset ∧
      (run.last + run.offset < 0xD800 ∨
        (0xDFFF < run.first + run.offset ∧ run.last + run.offset < 0x110000)) ∧
      (run.covers (108 - run.offset).toNat = true → 108 - run.offset = 76) := by
  decide +kernel

theorem lowerChar_of_not_capital (outside : c.toNat < 65 ∨ (91 ≤ c.toNat ∧ c.toNat < 123)) :
    lowerChar c = [c] := by
  have notDotted : c ≠ 'İ' := by
    intro same
    subst same
    exact absurd outside (by decide)
  refine lowerChar_of_uncovered notDotted fun run member => ?_
  have capitals := (capitalRuns_ranges run member).1
  simp only [CapitalRun.covers, Bool.and_eq_false_iff, decide_eq_false_iff_not]
  omega

theorem lowerChar_of_lt (below : c.toNat < 65) : lowerChar c = [c] :=
  lowerChar_of_not_capital (Or.inl below)

/-- What is not its own small form has one that is a single character of the letters' range. -/
theorem lowerChar_cases (c : Char) :
    lowerChar c = [c] ∨ lowerChar c = ['i', '\u0307'] ∨
      ∃ run ∈ capitalRuns, run.covers c.toNat = true ∧
        ∃ small : Char, lowerChar c = [small] ∧ (small.toNat : Int) = c.toNat + run.offset ∧
          65 ≤ small.toNat := by
  by_cases dotted : c = 'İ'
  · subst dotted
    exact Or.inr (Or.inl rfl)
  · cases found : capitalRuns.find? (·.covers c.toNat) with
    | none => exact Or.inl (by simp [lowerChar, dotted, found])
    | some run =>
        have listed := List.mem_of_find?_eq_some found
        have covers := List.find?_some found
        have range := (capitalRuns_ranges run listed).2
        refine Or.inr (Or.inr ⟨run, listed, covers, _, by simp [lowerChar, dotted, found]; rfl, ?_⟩)
        simp only [CapitalRun.covers, Bool.and_eq_true, decide_eq_true_eq] at covers
        have valid : (c.toNat + run.offset).toNat.isValidChar := by
          unfold Nat.isValidChar
          omega
        rw [toNat_ofNat valid]
        omega

theorem lowerChar_ne_nil (c : Char) : lowerChar c ≠ [] := by
  rcases lowerChar_cases c with same | dotted | ⟨_, _, _, _, small, _⟩ <;> simp [*]

theorem lowerChar_of_mem_of_lt (member : d ∈ lowerChar c) (below : d.toNat < 65) :
    lowerChar c = [c] := by
  rcases lowerChar_cases c with same | dotted | ⟨_, _, _, small, single, _, letter⟩
  · exact same
  · have letters : ∀ d ∈ ['i', '\u0307'], 65 ≤ d.toNat :=
      List.forall_mem_cons.mpr ⟨by decide, List.forall_mem_singleton.mpr (by decide)⟩
    have letter := letters d (dotted ▸ member)
    omega
  · rw [single, List.mem_singleton] at member
    subst member
    omega

theorem eq_of_lowerChar_eq_l (small : lowerChar c = ['l']) : c = 'l' ∨ c = 'L' := by
  rcases lowerChar_cases c with same | dotted | ⟨run, listed, covers, found, single, code, _⟩
  · rw [same] at small
    exact Or.inl (List.cons.inj small).1
  · rw [dotted] at small
    cases small
  · rw [single] at small
    cases small
    change (108 : Int) = _ at code
    have place : c.toNat = (108 - run.offset).toNat := by omega
    have capital := (capitalRuns_ranges run listed).2.2.2 (place ▸ covers)
    exact Or.inr (Char.toNat_inj.mp (by rw [place, capital]; rfl))

/-! Whole texts -/

theorem lower_of_not_capital
    (outside : ∀ c ∈ text, c.toNat < 65 ∨ (91 ≤ c.toNat ∧ c.toNat < 123)) : lower text = text := by
  refine lower_of_fixed fun c member => ⟨?_, lowerChar_of_not_capital (outside c member)⟩
  intro sigma
  subst sigma
  exact absurd (outside 'Σ' member) (by decide)

theorem lowerAfter_cons (afterCased : Bool) (c : Char) (rest : List Char) :
    ∃ here behindCased, lowerAfter afterCased (c :: rest) = here ++ lowerAfter behindCased rest ∧
      (c = 'Σ' ∧ (here = ['ς'] ∨ here = ['σ']) ∨ c ≠ 'Σ' ∧ here = lowerChar c) := by
  refine ⟨_, _, rfl, ?_⟩
  by_cases sigma : c = 'Σ'
  · subst sigma
    refine Or.inl ⟨rfl, ?_⟩
    split <;> simp_all
  · simp [sigma]

theorem lowerAfter_of_forall_lt {afterCased : Bool}
    (below : ∀ d ∈ lowerAfter afterCased text, d.toNat < 65) :
    lowerAfter afterCased text = text := by
  induction text generalizing afterCased with
  | nil => rfl
  | cons c rest ih =>
      obtain ⟨here, behindCased, whole, form⟩ := lowerAfter_cons afterCased c rest
      rw [whole, List.forall_mem_append] at below
      rw [whole, ih below.2]
      rcases form with ⟨_, rfl | rfl⟩ | ⟨_, rfl⟩
      · exact absurd (below.1 'ς' List.mem_cons_self) (by decide)
      · exact absurd (below.1 'σ' List.mem_cons_self) (by decide)
      · obtain ⟨d, member⟩ := List.exists_mem_of_ne_nil _ (lowerChar_ne_nil c)
        rw [lowerChar_of_mem_of_lt member (below.1 d member)]
        rfl

/-- Whether the small form of a character is the given one wherever the character stands. -/
def lowersTo (c small : Char) : Bool :=
  c != 'Σ' && lowerChar c == [small]

theorem lower_of_forall₂ {smalls : List Char}
    (letters : List.Forall₂ (fun c small => lowersTo c small = true) text smalls) :
    lower text = smalls := by
  have lowered (afterCased : Bool) : lowerAfter afterCased text = smalls := by
    induction letters generalizing afterCased with
    | nil => rfl
    | @cons c small rest smalls first behind ih =>
        obtain ⟨notSigma, becomes⟩ := Bool.and_eq_true_iff.mp first
        obtain ⟨here, behindCased, whole, ⟨sigma, _⟩ | ⟨_, rfl⟩⟩ := lowerAfter_cons afterCased c rest
        · exact absurd sigma (bne_iff_ne.mp notSigma)
        · rw [whole, eq_of_beq becomes, ih]
          rfl
  exact lowered false

/-- A text whose small form has no letters is its own small form. -/
theorem eq_of_lower_of_forall_lt {small : List Char} (lowered : lower text = small)
    (below : ∀ d ∈ small, d.toNat < 65) : text = small := by
  subst lowered
  exact (lowerAfter_of_forall_lt below).symm

theorem mem_of_mem_lowerAfter {afterCased : Bool} (member : d ∈ lowerAfter afterCased text)
    (below : d.toNat < 65) : d ∈ text := by
  induction text generalizing afterCased with
  | nil => cases member
  | cons c rest ih =>
      obtain ⟨here, behindCased, whole, form⟩ := lowerAfter_cons afterCased c rest
      rw [whole, List.mem_append] at member
      rcases member with inHere | inRest
      · rcases form with ⟨_, rfl | rfl⟩ | ⟨_, rfl⟩
        · rw [List.mem_singleton.mp inHere] at below
          exact absurd below (by decide)
        · rw [List.mem_singleton.mp inHere] at below
          exact absurd below (by decide)
        · rw [lowerChar_of_mem_of_lt inHere below, List.mem_singleton] at inHere
          exact inHere ▸ List.mem_cons_self
      · exact List.mem_cons_of_mem _ (ih inRest)

theorem lowerAfter_eq_nil {afterCased : Bool} (empty : lowerAfter afterCased text = []) :
    text = [] := by
  cases text with
  | nil => rfl
  | cons c rest =>
      obtain ⟨here, behindCased, whole, form⟩ := lowerAfter_cons afterCased c rest
      rw [whole, List.append_eq_nil_iff] at empty
      rcases form with ⟨_, rfl | rfl⟩ | ⟨_, rfl⟩
      · cases empty.1
      · cases empty.1
      · exact absurd empty.1 (lowerChar_ne_nil c)

theorem eq_of_lower_eq_l (small : lower text = ['l']) : text = ['l'] ∨ text = ['L'] := by
  cases text with
  | nil => cases small
  | cons c rest =>
      obtain ⟨here, behindCased, whole, form⟩ := lowerAfter_cons false c rest
      rw [lower, whole, List.append_eq_singleton_iff] at small
      rcases form with ⟨_, rfl | rfl⟩ | ⟨_, rfl⟩
      · simp at small
      · simp at small
      · obtain ⟨empty, _⟩ | ⟨here, empty⟩ := small
        · exact absurd empty (lowerChar_ne_nil c)
        · rw [lowerAfter_eq_nil empty]
          exact (eq_of_lowerChar_eq_l here).imp (congrArg ([·])) (congrArg ([·]))

/-! Commas -/

theorem startsCased_append_comma (before behind : List Char) :
    startsCased (before ++ ',' :: behind) = startsCased before := by
  have kept : isCaseIgnorable ',' = false := by decide
  have uncased : isCased ',' = false := by decide
  unfold startsCased
  rw [List.find?_append]
  cases before.find? (!isCaseIgnorable ·) with
  | none => simp [kept, uncased]
  | some c => rfl

theorem lowerAfter_append_comma (afterCased : Bool) (before behind : List Char) :
    lowerAfter afterCased (before ++ ',' :: behind) =
      lowerAfter afterCased before ++ ',' :: lower behind := by
  induction before generalizing afterCased with
  | nil =>
      have kept : isCaseIgnorable ',' = false := by decide
      have uncased : isCased ',' = false := by decide
      have small : lowerChar ',' = [','] := lowerChar_of_lt (by decide)
      simp [lowerAfter, lower, kept, uncased, small]
  | cons c rest ih =>
      rw [List.cons_append]
      simp only [lowerAfter]
      rw [startsCased_append_comma, ih, List.append_assoc]

theorem splitAt_lower (text : List Char) :
    splitAt ',' (lower text) = (splitAt ',' text).map lower := by
  induction size : text.length using Nat.strongRecOn generalizing text with
  | ind n ih =>
      cases cut : splitFirst? ',' text with
      | none =>
          have absent := splitFirst?_eq_none_iff.mp cut
          have absentSmall : ',' ∉ lower text :=
            fun member => absent (mem_of_mem_lowerAfter member (by decide))
          rw [splitAt_of_not_mem absent, splitAt_of_not_mem absentSmall]
          rfl
      | some pieces =>
          obtain ⟨before, behind⟩ := pieces
          obtain ⟨rfl, absent⟩ := eq_append_of_splitFirst? cut
          have absentSmall : ',' ∉ lower before :=
            fun member => absent (mem_of_mem_lowerAfter member (by decide))
          have shorter : behind.length < n := by
            rw [← size]
            simp
            omega
          have further := ih _ shorter behind rfl
          rw [splitAt_append absent, List.map_cons, ← further, ← splitAt_append absentSmall]
          exact congrArg _ (lowerAfter_append_comma false before behind)

/-! Small forms are their own small forms -/

def IsSmall (c : Char) : Prop :=
  c ≠ 'Σ' ∧ lowerChar c = [c]

instance (c : Char) : Decidable (IsSmall c) :=
  inferInstanceAs (Decidable (_ ∧ _))

theorem isSmall_of_all (text : List Char) (small : text.all (decide <| IsSmall ·) = true)
    (member : c ∈ text) : IsSmall c :=
  of_decide_eq_true (List.all_eq_true.mp small c member)

/-- Whether there is no capital among `first`, `first + step`, … up to `last`. -/
def hasNoCapital (first last step : Nat) : Bool :=
  (Nat.blt last 'İ'.toNat || Nat.blt 'İ'.toNat first) && capitalRuns.all fun run =>
    Nat.blt last run.first || Nat.blt run.last first ||
      run.step == 2 && (step == 2 || first == last) && (first + run.first) % 2 == 1

theorem capitalRuns_hasNoCapital : capitalRuns.all (fun run =>
    hasNoCapital (run.first + run.offset).toNat (run.last + run.offset).toNat run.step) = true := by
  decide +kernel

theorem isSmall_of_hasNoCapital {first last step : Nat} (free : hasNoCapital first last step = true)
    (least : first ≤ c.toNat) (greatest : c.toNat ≤ last) (met : step ∣ c.toNat - first) :
    IsSmall c := by
  simp only [hasNoCapital, Bool.and_eq_true, List.all_eq_true, Bool.or_eq_true, Nat.blt_eq,
    beq_iff_eq] at free
  obtain ⟨notDotted, free⟩ := free
  have uncovered : ∀ run ∈ capitalRuns, run.covers c.toNat = false := by
    intro run listed
    simp only [CapitalRun.covers, Bool.and_eq_false_iff, decide_eq_false_iff_not, beq_eq_false_iff_ne]
    rcases free run listed with (below | above) | ⟨⟨two, single⟩, odd⟩
    · omega
    · omega
    · have even : (c.toNat - first) % 2 = 0 := by
        rcases single with rfl | rfl
        · exact Nat.mod_eq_zero_of_dvd met
        · omega
      rw [two]
      omega
  constructor
  · rintro rfl
    obtain ⟨run, listed, covers⟩ : ∃ run ∈ capitalRuns, run.covers 'Σ'.toNat = true := by
      decide +kernel
    rw [uncovered run listed] at covers
    cases covers
  · refine lowerChar_of_uncovered ?_ uncovered
    rintro rfl
    omega

theorem isSmall_of_mem_lowerChar (notSigma : c ≠ 'Σ') (member : d ∈ lowerChar c) : IsSmall d := by
  rcases lowerChar_cases c with same | dotted | ⟨run, listed, covers, small, single, code, _⟩
  · obtain rfl := List.mem_singleton.mp (same ▸ member)
    exact ⟨notSigma, same⟩
  · exact isSmall_of_all ['i', '\u0307'] (by decide +kernel) (dotted ▸ member)
  · obtain rfl := List.mem_singleton.mp (single ▸ member)
    have bounds := capitalRuns_ranges run listed
    simp only [CapitalRun.covers, Bool.and_eq_true, decide_eq_true_eq, beq_iff_eq] at covers
    have free := List.all_eq_true.mp capitalRuns_hasNoCapital run listed
    refine isSmall_of_hasNoCapital free (by omega) (by omega) ?_
    have place : d.toNat - (run.first + run.offset).toNat = c.toNat - run.first := by omega
    rw [place]
    exact Nat.dvd_of_mod_eq_zero covers.2

theorem isSmall_of_mem_lowerAfter {afterCased : Bool} (member : d ∈ lowerAfter afterCased text) :
    IsSmall d := by
  induction text generalizing afterCased with
  | nil => cases member
  | cons c rest ih =>
      obtain ⟨here, behindCased, whole, form⟩ := lowerAfter_cons afterCased c rest
      rw [whole, List.mem_append] at member
      rcases member with inHere | inRest
      · rcases form with ⟨_, rfl | rfl⟩ | ⟨notSigma, rfl⟩
        · exact isSmall_of_all ['ς'] (by decide +kernel) inHere
        · exact isSmall_of_all ['σ'] (by decide +kernel) inHere
        · exact isSmall_of_mem_lowerChar notSigma inHere
      · exact ih inRest

theorem isSmall_of_mem_lower (member : c ∈ lower text) : IsSmall c :=
  isSmall_of_mem_lowerAfter member

end Recurrence.Text
