import Recurrence.Pattern

namespace Recurrence.Pattern

/-! The language of a pattern. It says which texts a pattern may read, without saying in
which order its ways are tried. -/

variable {σ : Type} {pattern first second : Pattern σ} {text : List Char}

/-- The texts that a pattern reads where all its edges and lookaheads hold. -/
def Matches : Pattern σ → List Char → Prop
  | .empty, text | .wordEdge, text | .notAhead _, text => text = []
  | .one set, text => ∃ c, text = [c] ∧ set.contains c = true
  | .seq first second, text =>
      ∃ front back, text = front ++ back ∧ first.Matches front ∧ second.Matches back
  | .either preferred other, text => preferred.Matches text ∨ other.Matches text
  | .many body, text =>
      ∃ pieces : List (List Char), text = pieces.flatten ∧ ∀ piece ∈ pieces, body.Matches piece
  | .capture _ body, text => body.Matches text

theorem matches_literal {fixed : List Char} :
    (literal fixed : Pattern σ).Matches text ↔ text = fixed := by
  fun_induction literal (σ := σ) fixed generalizing text with
  | case1 => rfl
  | case2 c => simp [Matches, CharSet.contains]
  | case3 c rest _ ih =>
      simp only [Matches, ih, CharSet.contains, beq_iff_eq]
      constructor
      · rintro ⟨_, _, rfl, ⟨d, rfl, rfl⟩, rfl⟩
        rfl
      · rintro rfl
        exact ⟨[c], rest, rfl, ⟨c, rfl, rfl⟩, rfl⟩

theorem matches_anyOf {patterns : List (Pattern σ)} (nonempty : patterns ≠ []) :
    (anyOf patterns).Matches text ↔ ∃ one ∈ patterns, one.Matches text := by
  fun_induction anyOf patterns with
  | case1 => exact absurd rfl nonempty
  | case2 pattern => simp
  | case3 pattern others several ih => simp [Matches, ih several]

/-- A choice between fixed texts reads these texts. -/
theorem matches_anyOf_words (words : List String) (nonempty : words ≠ []) :
    (anyOf (words.map word) : Pattern σ).Matches text ↔ text ∈ words.map String.toList := by
  rw [matches_anyOf (by simpa using nonempty)]
  constructor
  · rintro ⟨_, listed, reads⟩
    obtain ⟨fixed, member, rfl⟩ := List.mem_map.mp listed
    exact List.mem_map.mpr ⟨fixed, member, (matches_literal.mp reads).symm⟩
  · intro listed
    obtain ⟨fixed, member, rfl⟩ := List.mem_map.mp listed
    exact ⟨word fixed, List.mem_map_of_mem member, matches_literal.mpr rfl⟩

theorem matches_of_mem_repeated {body : Pattern σ} {limit : List Char} {place : Cursor}
    {way : Way σ}
    (step : ∀ {place : Cursor} {way : Way σ}, way ∈ body.ways place →
      ∃ read, place.rest = read ++ way.2.rest ∧ body.Matches read)
    (member : way ∈ repeated (fun inner => body.ways inner) limit place) :
    ∃ read, place.rest = read ++ way.2.rest ∧ (many body).Matches read := by
  -- The limit only bounds how many pieces there are, so the induction is on it.
  induction limit generalizing place way with
  | nil =>
      rw [repeated, List.mem_singleton] at member
      subst member
      exact ⟨[], rfl, [], rfl, fun _ inside => by cases inside⟩
  | cons _ others ih =>
      rcases List.mem_append.mp member with more | stop
      · obtain ⟨once, inBody, inMore⟩ := List.mem_flatMap.mp more
        obtain ⟨further, inRepeated, rfl⟩ := List.mem_map.mp inMore
        obtain ⟨front, cut, readsFront⟩ := step inBody
        obtain ⟨back, cutBack, pieces, rfl, readsPieces⟩ := ih inRepeated
        refine ⟨front ++ pieces.flatten, ?_, front :: pieces, rfl, ?_⟩
        · rw [cut, cutBack, List.append_assoc]
        · exact List.forall_mem_cons.mpr ⟨readsFront, readsPieces⟩
      · rw [List.mem_singleton] at stop
        subst stop
        exact ⟨[], rfl, [], rfl, fun _ inside => by cases inside⟩

/-- Every way of reading a pattern reads a text of its language. -/
theorem matches_of_mem_ways {place : Cursor} {way : Way σ} (member : way ∈ pattern.ways place) :
    ∃ read, place.rest = read ++ way.2.rest ∧ pattern.Matches read := by
  induction pattern generalizing place way with
  | empty =>
      rw [ways, List.mem_singleton] at member
      subst member
      exact ⟨[], rfl, rfl⟩
  | one set =>
      unfold ways at member
      split at member
      · cases member
      · rename_i c rest standing
        split at member
        · rename_i contained
          rw [List.mem_singleton] at member
          subst member
          exact ⟨[c], standing, c, rfl, contained⟩
        · cases member
  | seq first second ihFirst ihSecond =>
      obtain ⟨once, inFirst, inSecond⟩ := List.mem_flatMap.mp member
      obtain ⟨further, inFurther, rfl⟩ := List.mem_map.mp inSecond
      obtain ⟨front, cut, readsFront⟩ := ihFirst inFirst
      obtain ⟨back, cutBack, readsBack⟩ := ihSecond inFurther
      refine ⟨front ++ back, ?_, front, back, rfl, readsFront, readsBack⟩
      rw [cut, cutBack, List.append_assoc]
  | either preferred other ihPreferred ihOther =>
      rcases List.mem_append.mp member with inPreferred | inOther
      · obtain ⟨read, cut, reads⟩ := ihPreferred inPreferred
        exact ⟨read, cut, Or.inl reads⟩
      · obtain ⟨read, cut, reads⟩ := ihOther inOther
        exact ⟨read, cut, Or.inr reads⟩
  | many body ih => exact matches_of_mem_repeated ih member
  | capture slot body ih =>
      obtain ⟨inner, inBody, rfl⟩ := List.mem_map.mp member
      obtain ⟨read, cut, reads⟩ := ih inBody
      exact ⟨read, cut, reads⟩
  | wordEdge =>
      unfold ways at member
      split at member
      · rw [List.mem_singleton] at member
        subst member
        exact ⟨[], rfl, rfl⟩
      · cases member
  | notAhead set =>
      unfold ways at member
      split at member
      · cases member
      · rw [List.mem_singleton] at member
        subst member
        exact ⟨[], rfl, rfl⟩

/-- The preferred way of reading from a place on to the very end. -/
def toEnd? (pattern : Pattern σ) (place : Cursor) : Option (Way σ) :=
  (pattern.ways place).find? (·.2.rest.isEmpty)

theorem matches_of_toEnd? {place : Cursor} {way : Way σ} (read : pattern.toEnd? place = some way) :
    pattern.Matches place.rest := by
  have ended : way.2.rest = [] := by simpa using List.find?_some read
  obtain ⟨front, cut, reads⟩ := matches_of_mem_ways (List.mem_of_find?_eq_some read)
  rw [ended, List.append_nil] at cut
  exact cut ▸ reads

/-- A text that a pattern reads as a whole belongs to its language. -/
theorem matches_of_whole? {captures : Captures σ} (read : pattern.whole? text = some captures) :
    pattern.Matches text := by
  obtain ⟨way, ended, _⟩ := Option.map_eq_some_iff.mp read
  exact matches_of_toEnd? ended

end Recurrence.Pattern
