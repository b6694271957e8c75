import Mathlib.Data.List.Infix
import Recurrence.Text.LowerCase
import Recurrence.Text.Segment

namespace Recurrence.Text

/-! Cutting at a separator: the pieces hold no separator, and what is not there is not cut. -/

theorem splitFirst?_eq_none_iff {separator : Char} {text : List Char} :
    splitFirst? separator text = none ↔ separator ∉ text := by
  induction text with
  | nil => simp [splitFirst?]
  | cons c rest ih =>
      unfold splitFirst?
      by_cases same : c = separator
      · subst same
        simp
      · simp [same, ih, Ne.symm same]

theorem splitFirst?_append (separator : Char) {before : List Char} (absent : separator ∉ before)
    (behind : List Char) :
    splitFirst? separator (before ++ separator :: behind) = some (before, behind) := by
  induction before with
  | nil => simp [splitFirst?]
  | cons c rest ih =>
      rw [List.mem_cons, not_or] at absent
      simp [splitFirst?, Ne.symm absent.1, ih absent.2]

theorem eq_append_of_splitFirst? {separator : Char} {text before behind : List Char}
    (cut : splitFirst? separator text = some (before, behind)) :
    text = before ++ separator :: behind ∧ separator ∉ before := by
  induction text generalizing before with
  | nil => cases cut
  | cons c rest ih =>
      unfold splitFirst? at cut
      by_cases same : c = separator
      · subst same
        rw [BEq.rfl, if_pos rfl] at cut
        cases cut
        exact ⟨rfl, List.not_mem_nil⟩
      · rw [if_neg (by simpa using same)] at cut
        obtain ⟨⟨head, tail⟩, further, pieces⟩ := Option.map_eq_some_iff.mp cut
        cases pieces
        obtain ⟨rfl, absent⟩ := ih further
        exact ⟨rfl, by simp [Ne.symm same, absent]⟩

theorem eq_of_append_eq_append {separator : Char} {before before' behind behind' : List Char}
    (absent : separator ∉ before) (absent' : separator ∉ before')
    (same : before ++ separator :: behind = before' ++ separator :: behind') :
    before = before' ∧ behind = behind' := by
  have cut := congrArg (splitFirst? separator) same
  rw [splitFirst?_append separator absent, splitFirst?_append separator absent'] at cut
  exact Prod.mk.inj (Option.some.inj cut)

theorem splitAt_ne_nil (separator : Char) (text : List Char) : splitAt separator text ≠ [] := by
  cases text with
  | nil => simp [splitAt]
  | cons c rest =>
      unfold splitAt
      repeat' split
      all_goals simp

theorem splitAt_cons_separator (separator : Char) (rest : List Char) :
    splitAt separator (separator :: rest) = [] :: splitAt separator rest := by
  simp [splitAt]

theorem splitAt_cons_of_ne {separator c : Char} (different : c ≠ separator) {rest : List Char}
    {piece : List Char} {others : List (List Char)}
    (behind : splitAt separator rest = piece :: others) :
    splitAt separator (c :: rest) = (c :: piece) :: others := by
  simp [splitAt, different, behind]

theorem splitAt_of_not_mem {separator : Char} {text : List Char} (absent : separator ∉ text) :
    splitAt separator text = [text] := by
  induction text with
  | nil => rfl
  | cons c rest ih =>
      rw [List.mem_cons, not_or] at absent
      exact splitAt_cons_of_ne (Ne.symm absent.1) (ih absent.2)

/-- A separator ends a piece, so the pieces on its two sides do not depend on each other. -/
theorem splitAt_append_cons (separator : Char) (before behind : List Char) :
    splitAt separator (before ++ separator :: behind) =
      splitAt separator before ++ splitAt separator behind := by
  induction before with
  | nil => exact splitAt_cons_separator separator behind
  | cons c rest ih =>
      by_cases same : c = separator
      · subst same
        rw [List.cons_append, splitAt_cons_separator, splitAt_cons_separator, ih, List.cons_append]
      · cases cut : splitAt separator rest with
        | nil => exact absurd cut (splitAt_ne_nil separator rest)
        | cons piece others =>
            rw [cut, List.cons_append] at ih
            rw [List.cons_append, splitAt_cons_of_ne same ih, splitAt_cons_of_ne same cut,
              List.cons_append]

theorem splitAt_append {separator : Char} {before : List Char} (absent : separator ∉ before)
    (behind : List Char) :
    splitAt separator (before ++ separator :: behind) = before :: splitAt separator behind := by
  rw [splitAt_append_cons, splitAt_of_not_mem absent, List.singleton_append]

theorem intercalate_splitAt (separator : Char) (text : List Char) :
    [separator].intercalate (splitAt separator text) = text := by
  induction text with
  | nil => rfl
  | cons c rest ih =>
      cases behind : splitAt separator rest with
      | nil => exact absurd behind (splitAt_ne_nil separator rest)
      | cons piece others =>
          rw [behind] at ih
          by_cases same : c = separator
          · subst same
            rw [splitAt_cons_separator, behind, List.intercalate_cons_cons, ih]
            rfl
          · rw [splitAt_cons_of_ne same behind]
            cases others with
            | nil =>
                rw [List.intercalate_singleton] at ih ⊢
                rw [ih]
            | cons next others =>
                rw [List.intercalate_cons_cons] at ih ⊢
                rw [List.cons_append, List.cons_append, ih]

theorem eq_append_of_splitAt {separator : Char} {text before behind : List Char}
    (cut : splitAt separator text = [before, behind]) : text = before ++ separator :: behind := by
  have joined := intercalate_splitAt separator text
  rw [cut, List.intercalate_cons_cons, List.intercalate_singleton, List.append_assoc] at joined
  exact joined.symm

/-- Pieces that are joined by a separator which none of them holds are got back by cutting. -/
theorem splitAt_intercalate {separator : Char} {pieces : List (List Char)}
    (nonempty : pieces ≠ []) (absent : ∀ piece ∈ pieces, separator ∉ piece) :
    splitAt separator ([separator].intercalate pieces) = pieces := by
  induction pieces with
  | nil => exact absurd rfl nonempty
  | cons piece others ih =>
      obtain ⟨absentHere, absentThere⟩ := List.forall_mem_cons.mp absent
      cases others with
      | nil => rw [List.intercalate_singleton, splitAt_of_not_mem absentHere]
      | cons next others =>
          rw [List.intercalate_cons_cons, List.append_assoc, List.singleton_append,
            splitAt_append absentHere, ih (List.cons_ne_nil _ _) absentThere]

theorem mem_of_mem_intercalate {separator c : Char} {pieces : List (List Char)}
    (member : c ∈ [separator].intercalate pieces) : c = separator ∨ ∃ piece ∈ pieces, c ∈ piece := by
  induction pieces with
  | nil => cases member
  | cons first others ih =>
      have here (inFirst : c ∈ first) : c = separator ∨ ∃ piece ∈ first :: others, c ∈ piece :=
        Or.inr ⟨first, List.mem_cons_self, inFirst⟩
      cases others with
      | nil => exact here (by rwa [List.intercalate_singleton] at member)
      | cons next others =>
          rw [List.intercalate_cons_cons, List.mem_append, List.mem_append,
            List.mem_singleton] at member
          rcases member with (inFirst | separates) | further
          · exact here inFirst
          · exact Or.inl separates
          · refine (ih further).imp_right fun found => ?_
            obtain ⟨later, among, inLater⟩ := found
            exact ⟨later, List.mem_cons_of_mem _ among, inLater⟩

theorem mem_of_mem_splitAt {separator : Char} {text piece : List Char}
    (cut : piece ∈ splitAt separator text) : ∀ c ∈ piece, c ∈ text ∧ c ≠ separator := by
  induction text generalizing piece with
  | nil =>
      rw [splitAt, List.mem_singleton] at cut
      subst cut
      intro c member
      cases member
  | cons d rest ih =>
      by_cases same : d = separator
      · subst same
        rw [splitAt_cons_separator] at cut
        rcases List.mem_cons.mp cut with rfl | further
        · intro c member
          cases member
        · exact fun c member => ⟨List.mem_cons_of_mem _ (ih further c member).1,
            (ih further c member).2⟩
      · cases behind : splitAt separator rest with
        | nil => exact absurd behind (splitAt_ne_nil separator rest)
        | cons first others =>
            rw [splitAt_cons_of_ne same behind] at cut
            intro c member
            rcases List.mem_cons.mp cut with rfl | further
            · rcases List.mem_cons.mp member with rfl | inFirst
              · exact ⟨List.mem_cons_self, same⟩
              · have := ih (behind ▸ List.mem_cons_self) c inFirst
                exact ⟨List.mem_cons_of_mem _ this.1, this.2⟩
            · have := ih (behind ▸ List.mem_cons_of_mem _ further) c member
              exact ⟨List.mem_cons_of_mem _ this.1, this.2⟩

theorem exists_piece_of_mem {separator c : Char} {text : List Char} (member : c ∈ text) :
    c = separator ∨ ∃ piece ∈ splitAt separator text, c ∈ piece := by
  induction text with
  | nil => cases member
  | cons d rest ih =>
      by_cases same : d = separator
      · subst same
        rcases List.mem_cons.mp member with rfl | inRest
        · exact Or.inl rfl
        · refine (ih inRest).imp_right fun ⟨piece, cut, inPiece⟩ => ⟨piece, ?_, inPiece⟩
          rw [splitAt_cons_separator]
          exact List.mem_cons_of_mem _ cut
      · cases behind : splitAt separator rest with
        | nil => exact absurd behind (splitAt_ne_nil separator rest)
        | cons first others =>
            rw [splitAt_cons_of_ne same behind]
            rcases List.mem_cons.mp member with rfl | inRest
            · exact Or.inr ⟨_, List.mem_cons_self, List.mem_cons_self⟩
            · rcases ih inRest with separates | ⟨piece, cut, inPiece⟩
              · exact Or.inl separates
              · rw [behind] at cut
                rcases List.mem_cons.mp cut with rfl | further
                · exact Or.inr ⟨_, List.mem_cons_self, List.mem_cons_of_mem _ inPiece⟩
                · exact Or.inr ⟨piece, List.mem_cons_of_mem _ further, inPiece⟩

/-! Where the pieces of a text stand in it -/

theorem infix_of_splitFirst? {separator : Char} {text before behind : List Char}
    (cut : splitFirst? separator text = some (before, behind)) :
    before <:+: text ∧ behind <:+: text := by
  obtain ⟨rfl, _⟩ := eq_append_of_splitFirst? cut
  exact ⟨(List.prefix_append _ _).isInfix,
    ((List.suffix_cons _ _).trans (List.suffix_append _ _)).isInfix⟩

theorem infix_intercalate (separator : List Char) {piece : List Char} {pieces : List (List Char)}
    (member : piece ∈ pieces) : piece <:+: separator.intercalate pieces := by
  induction pieces with
  | nil => cases member
  | cons first others ih =>
      cases others with
      | nil =>
          obtain rfl := List.mem_singleton.mp member
          exact (List.intercalate_singleton).symm ▸ List.infix_rfl
      | cons next others =>
          rw [List.intercalate_cons_cons]
          rcases List.mem_cons.mp member with rfl | further
          · exact ((List.prefix_append _ _).trans (List.prefix_append _ _)).isInfix
          · exact (ih further).trans (List.suffix_append _ _).isInfix

theorem infix_of_mem_splitAt {separator : Char} {text piece : List Char}
    (cut : piece ∈ splitAt separator text) : piece <:+: text := by
  rw [← intercalate_splitAt separator text]
  exact infix_intercalate [separator] cut

/-- A piece without a mark that stands in a text lies on one side of the mark. -/
theorem infix_append_cons_iff {mark : Char} {piece : List Char} (absent : mark ∉ piece)
    (before behind : List Char) :
    piece <:+: before ++ mark :: behind ↔ piece <:+: before ∨ piece <:+: behind := by
  constructor
  · rintro ⟨front, back, whole⟩
    rcases List.append_eq_append_iff.mp whole with ⟨gap, inBefore, _⟩ | ⟨gap, reached, rest⟩
    · exact Or.inl (inBefore ▸ ⟨front, gap, rfl⟩)
    · cases gap with
      | nil => exact Or.inl ⟨front, [], by simpa using reached⟩
      | cons c gap =>
          -- The piece ends behind the mark, so it begins behind it as well.
          cases rest
          rcases List.append_eq_append_iff.mp reached with ⟨lead, _, inPiece⟩ | ⟨lead, _, behindMark⟩
          · exact absurd (inPiece ▸ List.mem_append_right _ List.mem_cons_self) absent
          · cases lead with
            | nil =>
                obtain rfl : piece = mark :: gap := behindMark.symm
                exact absurd List.mem_cons_self absent
            | cons d lead =>
                cases behindMark
                exact Or.inr ⟨lead, back, rfl⟩
  · rintro (inBefore | inBehind)
    · exact inBefore.trans (List.prefix_append _ _).isInfix
    · exact inBehind.trans ((List.suffix_cons _ _).trans (List.suffix_append _ _)).isInfix

/-! Replacing pieces -/

theorem replaceAfter_covered (old new : List Char) (covered : Nat) (text : List Char) :
    replaceAfter old new covered text = replaceAfter old new 0 (text.drop covered) := by
  induction text generalizing covered with
  | nil => cases covered <;> rfl
  | cons c rest ih =>
      cases covered with
      | zero => rfl
      | succ covered => exact ih covered

theorem replaceAfter_append {old : List Char} (nonempty : old ≠ []) (new rest : List Char) :
    replaceAfter old new 0 (old ++ rest) = new ++ replaceAfter old new 0 rest := by
  cases old with
  | nil => exact absurd rfl nonempty
  | cons c old =>
      have found : (c :: old).isPrefixOf (c :: (old ++ rest)) = true :=
        List.isPrefixOf_iff_prefix.mpr ⟨rest, rfl⟩
      rw [List.cons_append, replaceAfter, if_pos found, replaceAfter_covered]
      simp

theorem replaceAfter_cons {old : List Char} {c : Char} {rest : List Char}
    (absent : ¬ old <+: c :: rest) (new : List Char) :
    replaceAfter old new 0 (c :: rest) = c :: replaceAfter old new 0 rest := by
  rw [replaceAfter, if_neg]
  exact fun found => absent (List.isPrefixOf_iff_prefix.mp found)

/-- Texts from the point of view of one who searches them for a piece. -/
theorem search_induction {old : List Char} (nonempty : old ≠ []) {motive : List Char → Prop}
    (nil : motive []) (skip : ∀ c rest, ¬ old <+: c :: rest → motive rest → motive (c :: rest))
    (found : ∀ rest, motive rest → motive (old ++ rest)) (text : List Char) : motive text := by
  induction size : text.length using Nat.strongRecOn generalizing text with
  | ind size ih =>
      by_cases here : old <+: text
      · obtain ⟨rest, rfl⟩ := here
        have positive := List.length_pos_of_ne_nil nonempty
        rw [List.length_append] at size
        exact found rest (ih rest.length (by omega) rest rfl)
      · cases text with
        | nil => exact nil
        | cons c rest =>
            rw [List.length_cons] at size
            exact skip c rest here (ih rest.length (by omega) rest rfl)

theorem mem_of_mem_replaceAll {old new : String} (nonempty : old.toList ≠ []) {text : List Char}
    {c : Char} : c ∈ replaceAll old new text → c ∈ new.toList ∨ c ∈ text := by
  unfold replaceAll
  induction text using search_induction nonempty with
  | nil => exact Or.inr
  | skip d rest absent ih =>
      rw [replaceAfter_cons absent, List.mem_cons, List.mem_cons]
      tauto
  | found rest ih =>
      rw [replaceAfter_append nonempty, List.mem_append, List.mem_append]
      tauto

/-- Replacing a piece by one with fewer characters of some kind leaves fewer of them, unless the
piece does not occur. -/
theorem replaceAll_cases {old new : String} (kind : Char → Bool)
    (fewer : new.toList.countP kind < old.toList.countP kind) (text : List Char) :
    ¬ old.toList <:+: text ∧ replaceAll old new text = text ∨
      old.toList <:+: text ∧ (replaceAll old new text).countP kind < text.countP kind := by
  have nonempty : old.toList ≠ [] := by
    intro empty
    rw [empty] at fewer
    exact absurd fewer (Nat.not_lt_zero _)
  unfold replaceAll
  induction text using search_induction nonempty with
  | nil => exact Or.inl ⟨fun within => nonempty (List.infix_nil.mp within), rfl⟩
  | skip c rest absent ih =>
      rw [replaceAfter_cons absent, List.infix_cons_iff, List.countP_cons, List.countP_cons]
      rcases ih with ⟨absentBehind, same⟩ | ⟨within, less⟩
      · exact Or.inl ⟨not_or_intro absent absentBehind, congrArg _ same⟩
      · exact Or.inr ⟨Or.inr within, by omega⟩
  | found rest ih =>
      refine Or.inr ⟨(List.prefix_append _ _).isInfix, ?_⟩
      rw [replaceAfter_append nonempty, List.countP_append, List.countP_append]
      rcases ih with ⟨_, same⟩ | ⟨_, less⟩
      · rw [same]
        omega
      · omega

theorem replaceAfter_of_not_mem {c : Char} {text : List Char} (absent : c ∉ text)
    (old new : List Char) : replaceAfter (c :: old) new 0 text = text := by
  induction text with
  | nil => rfl
  | cons d rest ih =>
      rw [List.mem_cons, not_or] at absent
      simp [replaceAfter, absent.1, ih absent.2]

/-! Lower case changes no character that has no small form. -/

theorem lowerChar_of_uncovered {c : Char} (notDotted : c ≠ 'İ')
    (uncovered : ∀ run ∈ capitalRuns, run.covers c.toNat = false) : lowerChar c = [c] := by
  have unfound : capitalRuns.find? (·.covers c.toNat) = none := by
    simpa [List.find?_eq_none] using uncovered
  simp [lowerChar, notDotted, unfound]

theorem lowerAfter_of_fixed {text : List Char}
    (fixed : ∀ c ∈ text, c ≠ 'Σ' ∧ lowerChar c = [c]) (afterCased : Bool) :
    lowerAfter afterCased text = text := by
  induction text generalizing afterCased with
  | nil => rfl
  | cons c rest ih =>
      obtain ⟨notSigma, unchanged⟩ := fixed c List.mem_cons_self
      simp only [lowerAfter, beq_iff_eq, notSigma, if_false, unchanged, List.singleton_append]
      rw [ih fun d member => fixed d (List.mem_cons_of_mem _ member)]

theorem lower_of_fixed {text : List Char}
    (fixed : ∀ c ∈ text, c ≠ 'Σ' ∧ lowerChar c = [c]) : lower text = text :=
  lowerAfter_of_fixed fixed false

end Recurrence.Text
