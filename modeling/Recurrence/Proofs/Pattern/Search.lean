import Recurrence.Proofs.Pattern.Language

namespace Recurrence.Pattern

/-! Searching inside a text. Every reading that is found stands at some place of the text,
and none is found only where no place has any. -/

variable {σ : Type} {pattern : Pattern σ} {text : List Char}

/-- The place behind a beginning of a text that itself stands behind some character. -/
def placeBehind (before : Option Char) (front rest : List Char) : Cursor :=
  ⟨front.getLast?.or before, rest⟩

theorem placeBehind_cons (before : Option Char) (c : Char) (front rest : List Char) :
    placeBehind before (c :: front) rest = placeBehind (some c) front rest := by
  cases front with
  | nil => rfl
  | cons d front => simp [placeBehind, List.getLast?_cons]

theorem upTo_of_rest_eq {place later : Cursor} {read : List Char}
    (standing : place.rest = read ++ later.rest) : place.upTo later = read := by
  simp [Cursor.upTo, standing]

theorem readAt?_eq_none_iff {place : Cursor} :
    pattern.readAt? place = none ↔ pattern.ways place = [] := by
  simp [readAt?]

theorem readAt?_eq_some {place : Cursor} {found : Occurrence σ}
    (read : pattern.readAt? place = some found) :
    found.start = place ∧ (found.captures, found.stop) ∈ pattern.ways place := by
  obtain ⟨way, first, rfl⟩ := Option.map_eq_some_iff.mp read
  exact ⟨rfl, List.mem_of_head? first⟩

theorem exists_place_of_mem_occurrencesFrom {covered : Nat} {before : Option Char}
    {found : Occurrence σ} (member : found ∈ pattern.occurrencesFrom covered before text) :
    ∃ front rest, text = front ++ rest ∧
      pattern.readAt? (placeBehind before front rest) = some found := by
  have behind {before : Option Char} {c : Char} {text : List Char}
      (further : ∃ front rest, text = front ++ rest ∧
        pattern.readAt? (placeBehind (some c) front rest) = some found) :
      ∃ front rest, c :: text = front ++ rest ∧
        pattern.readAt? (placeBehind before front rest) = some found := by
    obtain ⟨front, rest, rfl, read⟩ := further
    exact ⟨c :: front, rest, rfl, by rwa [placeBehind_cons]⟩
  fun_induction occurrencesFrom pattern covered before text with
  | case1 => exact ⟨[], [], rfl, Option.mem_toList.mp member⟩
  | case2 _ covered c rest ih => exact behind (ih member)
  | case3 before c rest first read ih =>
      rcases List.mem_cons.mp member with rfl | further
      · exact ⟨[], c :: rest, rfl, read⟩
      · exact behind (ih further)
  | case4 before c rest _ ih => exact behind (ih member)

theorem exists_place_of_mem_occurrences {found : Occurrence σ}
    (member : found ∈ pattern.occurrences text) :
    ∃ front rest, text = front ++ rest ∧ pattern.readAt? ⟨front.getLast?, rest⟩ = some found := by
  simpa [placeBehind] using exists_place_of_mem_occurrencesFrom member

theorem occurrencesFrom_eq_nil {before : Option Char}
    (absent : pattern.occurrencesFrom 0 before text = []) {front rest : List Char}
    (place : text = front ++ rest) : pattern.ways (placeBehind before front rest) = [] := by
  induction text generalizing before front with
  | nil =>
      obtain ⟨rfl, rfl⟩ := List.append_eq_nil_iff.mp place.symm
      exact readAt?_eq_none_iff.mp (Option.toList_eq_nil_iff.mp absent)
  | cons c text ih =>
      unfold occurrencesFrom at absent
      split at absent
      · cases absent
      · rename_i unread
        cases front with
        | nil =>
            subst place
            exact readAt?_eq_none_iff.mp unread
        | cons d front =>
            cases place
            rw [placeBehind_cons]
            exact ih absent rfl

/-- A pattern occurs in a text exactly if it can be read at some place of it. -/
theorem occurrences_ne_nil_iff :
    pattern.occurrences text ≠ [] ↔
      ∃ front rest, text = front ++ rest ∧ pattern.ways ⟨front.getLast?, rest⟩ ≠ [] := by
  constructor
  · intro occurs
    obtain ⟨found, member⟩ := List.exists_mem_of_ne_nil _ occurs
    obtain ⟨front, rest, place, read⟩ := exists_place_of_mem_occurrences member
    exact ⟨front, rest, place, List.ne_nil_of_mem (readAt?_eq_some read).2⟩
  · intro readable absent
    obtain ⟨front, rest, place, readable⟩ := readable
    have unread := occurrencesFrom_eq_nil absent place
    rw [placeBehind, Option.or_none] at unread
    exact readable unread

/-! Sequences -/

theorem ways_seq_assoc (first second third : Pattern σ) :
    (seq (seq first second) third).ways = (seq first (seq second third)).ways := by
  funext place
  simp [ways, List.flatMap_assoc, List.flatMap_map, List.map_flatMap, Function.comp_def,
    List.append_assoc]

theorem ways_seq_congr {first one other : Pattern σ} (same : one.ways = other.ways) :
    (seq first one).ways = (seq first other).ways := by
  funext place
  simp only [ways, same]

theorem ways_inOrder_append {front back : List (Pattern σ)} (some : front ≠ [])
    (others : back ≠ []) :
    (inOrder (front ++ back)).ways = (seq (inOrder front) (inOrder back)).ways := by
  induction front with
  | nil => exact absurd rfl some
  | cons pattern front ih =>
      obtain ⟨next, back, rfl⟩ := List.exists_cons_of_ne_nil others
      cases front with
      | nil => rfl
      | cons second front =>
          have onward := ih (List.cons_ne_nil _ _)
          exact (ways_seq_congr onward).trans (ways_seq_assoc _ _ _).symm

theorem ways_inOrder_concat (front : List (Pattern σ)) (last : Pattern σ) :
    (inOrder (front ++ [last])).ways = (seq (inOrder front) last).ways := by
  cases front with
  | nil =>
      funext place
      simp [inOrder, ways]
  | cons pattern front => exact ways_inOrder_append (List.cons_ne_nil _ _) (List.cons_ne_nil _ _)

/-! The ways of fixed texts -/

theorem mem_ways_one {set : CharSet} {place : Cursor} {way : Way σ} :
    way ∈ (one set : Pattern σ).ways place ↔
      ∃ c rest, place.rest = c :: rest ∧ set.contains c = true ∧ way = ([], ⟨some c, rest⟩) := by
  obtain ⟨before, rest⟩ := place
  cases rest with
  | nil => simp [ways]
  | cons c rest =>
      simp only [ways, List.cons.injEq]
      split
      · rename_i contained
        rw [List.mem_singleton]
        refine ⟨fun same => ⟨c, rest, ⟨rfl, rfl⟩, contained, same⟩, fun reads => ?_⟩
        obtain ⟨_, _, ⟨rfl, rfl⟩, _, same⟩ := reads
        exact same
      · rename_i absent
        refine iff_of_false List.not_mem_nil fun reads => ?_
        obtain ⟨_, _, ⟨rfl, rfl⟩, contained, _⟩ := reads
        exact absent contained

theorem mem_ways_exactly {c : Char} {place : Cursor} {way : Way σ} :
    way ∈ (one (.exactly c)).ways place ↔
      place.rest = c :: way.2.rest ∧ way = ([], ⟨some c, way.2.rest⟩) := by
  obtain ⟨before, rest⟩ := place
  cases rest with
  | nil => simp [ways]
  | cons d rest =>
      by_cases same : d = c
      · subst same
        simp only [ways, CharSet.contains, BEq.rfl, if_true, List.mem_singleton, List.cons.injEq,
          true_and]
        constructor
        · intro same
          subst same
          exact ⟨rfl, rfl⟩
        · intro reads
          obtain ⟨rfl, whole⟩ := reads
          exact whole
      · simp [ways, CharSet.contains, same]

theorem mem_ways_seq {first second : Pattern σ} {place : Cursor} {way : Way σ} :
    way ∈ (seq first second).ways place ↔
      ∃ front ∈ first.ways place, ∃ back ∈ second.ways front.2,
        way = (front.1 ++ back.1, back.2) := by
  simp only [ways, List.mem_flatMap, List.mem_map]
  exact exists_congr fun front => and_congr_right fun _ =>
    exists_congr fun back => and_congr_right fun _ => eq_comm

theorem mem_ways_literal {fixed : List Char} {place : Cursor} {way : Way σ} :
    way ∈ (literal fixed).ways place ↔
      place.rest = fixed ++ way.2.rest ∧ way = ([], placeBehind place.before fixed way.2.rest) := by
  fun_induction literal (σ := σ) fixed generalizing place way with
  | case1 =>
      simp only [ways, List.mem_singleton, List.nil_append, placeBehind, List.getLast?_nil,
        Option.none_or]
      constructor
      · intro same
        subst same
        exact ⟨rfl, rfl⟩
      · intro reads
        obtain ⟨same, whole⟩ := reads
        rw [whole, ← same]
  | case2 c => exact mem_ways_exactly
  | case3 c rest _ ih =>
      rw [mem_ways_seq]
      constructor
      · intro reads
        obtain ⟨⟨captures, before, behind⟩, inFront, ⟨_, stop⟩, inBack, rfl⟩ := reads
        obtain ⟨standing, front⟩ := mem_ways_exactly.mp inFront
        obtain ⟨further, back⟩ := ih.mp inBack
        simp only [Prod.mk.injEq, Cursor.mk.injEq, and_true] at front back standing further
        obtain ⟨⟨rfl, rfl⟩, rfl, stopped⟩ := And.intro front back
        refine ⟨by rw [standing, further, List.cons_append], ?_⟩
        rw [placeBehind_cons]
        exact Prod.ext rfl stopped
      · intro reads
        obtain ⟨standing, whole⟩ := reads
        rw [placeBehind_cons] at whole
        exact ⟨([], ⟨some c, rest ++ way.2.rest⟩), mem_ways_exactly.mpr ⟨standing, rfl⟩,
          way, ih.mpr ⟨rfl, whole⟩, rfl⟩

theorem mem_ways_anyOf {patterns : List (Pattern σ)} (nonempty : patterns ≠ []) {place : Cursor}
    {way : Way σ} : way ∈ (anyOf patterns).ways place ↔ ∃ one ∈ patterns, way ∈ one.ways place := by
  fun_induction anyOf patterns with
  | case1 => exact absurd rfl nonempty
  | case2 pattern => simp
  | case3 pattern others several ih => simp [ways, ih several]

theorem mem_ways_optional {place : Cursor} {way : Way σ} :
    way ∈ (optional pattern).ways place ↔ way ∈ pattern.ways place ∨ way = ([], place) := by
  simp [optional, ways]

theorem mem_ways_wordEdge {place : Cursor} {way : Way σ} :
    way ∈ (wordEdge : Pattern σ).ways place ↔ place.atWordEdge = true ∧ way = ([], place) := by
  unfold ways
  split <;> simp_all

end Recurrence.Pattern
