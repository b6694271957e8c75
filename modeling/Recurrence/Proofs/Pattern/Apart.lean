import Recurrence.Proofs.Pattern.Language
import Recurrence.Proofs.Text.Classes

namespace Recurrence

/-! Patterns that never read the same text. Reading a character with both of them leads to
pairs of patterns for what is left. They are apart if all pairs that are reached in this way
can be listed and both may stop in none of them. -/

def CharSet.apart : CharSet → CharSet → Bool
  | .exactly c, set => !set.contains c
  | set, .exactly c => !set.contains c
  | .digit, .blank => true
  | .blank, .digit => true
  | _, _ => false

theorem CharSet.not_contains_of_apart {left right : CharSet} (apart : left.apart right = true)
    {c : Char} (inLeft : left.contains c = true) : right.contains c = false := by
  have different {set : CharSet} {d : Char} (absent : (!set.contains d) = true)
      (member : set.contains c = true) : c ≠ d := by
    intro same
    subst same
    rw [member] at absent
    cases absent
  cases left with
  | exactly d =>
      refine Bool.eq_false_iff.mpr fun inRight => ?_
      exact different apart inRight (eq_of_beq inLeft)
  | digit =>
      cases right with
      | exactly d => exact beq_false_of_ne (different apart inLeft)
      | blank => exact Text.isBlank_of_isDigit inLeft
      | _ => cases apart
  | blank =>
      cases right with
      | exactly d => exact beq_false_of_ne (different apart inLeft)
      | digit =>
          refine Bool.eq_false_iff.mpr fun digit => ?_
          rw [contains, Text.isBlank_of_isDigit digit] at inLeft
          cases inLeft
      | _ => cases apart
  | _ =>
      cases right with
      | exactly d => exact beq_false_of_ne (different apart inLeft)
      | _ => cases apart

namespace Pattern

variable {σ : Type} {pattern left right : Pattern σ} {text : List Char}

deriving instance DecidableEq for Pattern

/-! One character at a time -/

def skips : Pattern σ → Bool
  | .empty | .many _ | .wordEdge | .notAhead _ => true
  | .one _ => false
  | .seq first second => first.skips && second.skips
  | .either preferred other => preferred.skips || other.skips
  | .capture _ body => body.skips

/-- A sequence, or its second pattern if the first one is over. -/
def followedBy : Pattern σ → Pattern σ → Pattern σ
  | .empty, second => second
  | first, second => .seq first second

/-- The sets that the next character may come from, with the pattern for what is behind it. -/
def steps : Pattern σ → List (CharSet × Pattern σ)
  | .empty | .wordEdge | .notAhead _ => []
  | .one set => [(set, .empty)]
  | .seq first second =>
      first.steps.map (fun step => (step.1, step.2.followedBy second)) ++
        if first.skips then second.steps else []
  | .either preferred other => preferred.steps ++ other.steps
  | .many body => body.steps.map fun step => (step.1, step.2.followedBy (.many body))
  | .capture _ body => body.steps

theorem skips_of_matches_nil (reads : pattern.Matches []) : pattern.skips = true := by
  induction pattern with
  | empty | many _ _ | wordEdge | notAhead _ => rfl
  | one set =>
      obtain ⟨c, same, _⟩ := reads
      cases same
  | seq first second ihFirst ihSecond =>
      obtain ⟨front, back, same, readsFront, readsBack⟩ := reads
      obtain ⟨rfl, rfl⟩ := List.append_eq_nil_iff.mp same.symm
      rw [skips, ihFirst readsFront, ihSecond readsBack, Bool.and_self]
  | either preferred other ihPreferred ihOther =>
      rw [skips, Bool.or_eq_true]
      exact reads.imp ihPreferred ihOther
  | capture slot body ih => exact ih reads

theorem followedBy_matches {first second : Pattern σ} {front back : List Char}
    (readsFront : first.Matches front) (readsBack : second.Matches back) :
    (first.followedBy second).Matches (front ++ back) := by
  unfold followedBy
  split
  · cases readsFront
    exact readsBack
  · exact ⟨front, back, rfl, readsFront, readsBack⟩

theorem exists_step_of_matches_cons {c : Char} (reads : pattern.Matches (c :: text)) :
    ∃ step ∈ pattern.steps, step.1.contains c = true ∧ step.2.Matches text := by
  induction pattern generalizing text with
  | empty | wordEdge | notAhead _ => cases reads
  | one set =>
      obtain ⟨d, same, contained⟩ := reads
      cases same
      exact ⟨(set, .empty), List.mem_singleton_self _, contained, rfl⟩
  | seq first second ihFirst ihSecond =>
      obtain ⟨front, back, same, readsFront, readsBack⟩ := reads
      cases front with
      | nil =>
          have behind : back = c :: text := same.symm
          subst behind
          obtain ⟨step, member, contained, further⟩ := ihSecond readsBack
          refine ⟨step, List.mem_append_right _ ?_, contained, further⟩
          rwa [skips_of_matches_nil readsFront, if_pos rfl]
      | cons d front =>
          cases same
          obtain ⟨step, member, contained, further⟩ := ihFirst readsFront
          exact ⟨_, List.mem_append_left _ (List.mem_map_of_mem member), contained,
            followedBy_matches further readsBack⟩
  | either preferred other ihPreferred ihOther =>
      rcases reads with reads | reads
      · obtain ⟨step, member, further⟩ := ihPreferred reads
        exact ⟨step, List.mem_append_left _ member, further⟩
      · obtain ⟨step, member, further⟩ := ihOther reads
        exact ⟨step, List.mem_append_right _ member, further⟩
  | many body ih =>
      obtain ⟨pieces, same, readsPieces⟩ := reads
      -- The first pieces may be empty; the character is read by the first one that is not.
      induction pieces with
      | nil => cases same
      | cons piece others ihPieces =>
          obtain ⟨readsPiece, readsOthers⟩ := List.forall_mem_cons.mp readsPieces
          cases piece with
          | nil => exact ihPieces same readsOthers
          | cons d piece =>
              cases same
              obtain ⟨step, member, contained, further⟩ := ih readsPiece
              exact ⟨_, List.mem_map_of_mem member, contained,
                followedBy_matches further ⟨others, rfl, readsOthers⟩⟩
  | capture slot body ih => exact ih reads

/-! Pairs of patterns -/

/-- The pairs that two patterns lead to when both read the same character. -/
def nextPairs (pair : Pattern σ × Pattern σ) : List (Pattern σ × Pattern σ) :=
  pair.1.steps.flatMap fun left =>
    (pair.2.steps.filter fun right => !left.1.apart right.1).map fun right => (left.2, right.2)

/-- Pairs that lead to no others but some that still wait, and both may stop in none. -/
def IsClosed (pairs waiting : List (Pattern σ × Pattern σ)) : Prop :=
  ∀ pair ∈ pairs, (pair.1.skips && pair.2.skips) = false ∧
    ∀ next ∈ nextPairs pair, next ∈ pairs ∨ next ∈ waiting

theorem IsClosed.of_visited {pair : Pattern σ × Pattern σ}
    {seen others : List (Pattern σ × Pattern σ)} (closed : IsClosed seen (pair :: others))
    (visited : pair ∈ seen) : IsClosed seen others := by
  intro other member
  refine ⟨(closed other member).1, fun next reached => ?_⟩
  rcases (closed other member).2 next reached with inSeen | waiting
  · exact Or.inl inSeen
  · rcases List.mem_cons.mp waiting with rfl | further
    · exact Or.inl visited
    · exact Or.inr further

theorem IsClosed.visit {pair : Pattern σ × Pattern σ}
    {seen others : List (Pattern σ × Pattern σ)} (closed : IsClosed seen (pair :: others))
    (onlyOneStops : (pair.1.skips && pair.2.skips) = false) :
    IsClosed (pair :: seen) (nextPairs pair ++ others) := by
  intro other member
  rcases List.mem_cons.mp member with rfl | inSeen
  · exact ⟨onlyOneStops, fun next reached => Or.inr (List.mem_append_left _ reached)⟩
  · refine ⟨(closed other inSeen).1, fun next reached => ?_⟩
    rcases (closed other inSeen).2 next reached with old | waiting
    · exact Or.inl (List.mem_cons_of_mem _ old)
    · rcases List.mem_cons.mp waiting with rfl | further
      · exact Or.inl List.mem_cons_self
      · exact Or.inr (List.mem_append_right _ further)

theorem IsClosed.not_matches {pairs : List (Pattern σ × Pattern σ)} (closed : IsClosed pairs [])
    {pair : Pattern σ × Pattern σ} (member : pair ∈ pairs) (readsLeft : pair.1.Matches text) :
    ¬ pair.2.Matches text := by
  intro readsRight
  induction text generalizing pair with
  | nil =>
      have onlyOneStops := (closed pair member).1
      rw [skips_of_matches_nil readsLeft, skips_of_matches_nil readsRight] at onlyOneStops
      cases onlyOneStops
  | cons c text ih =>
      -- Both patterns read the next character, so what they go on with is a listed pair again.
      obtain ⟨left, inLeft, leftContains, leftReads⟩ := exists_step_of_matches_cons readsLeft
      obtain ⟨right, inRight, rightContains, rightReads⟩ := exists_step_of_matches_cons readsRight
      have shared : left.1.apart right.1 = false := by
        refine Bool.eq_false_iff.mpr fun apart => ?_
        rw [CharSet.not_contains_of_apart apart leftContains] at rightContains
        cases rightContains
      have reached : (left.2, right.2) ∈ nextPairs pair :=
        List.mem_flatMap.mpr ⟨left, inLeft, List.mem_map.mpr
          ⟨right, List.mem_filter.mpr ⟨inRight, by simp [shared]⟩, rfl⟩⟩
      rcases (closed pair member).2 _ reached with listed | waiting
      · exact ih listed leftReads rightReads
      · cases waiting

variable [DecidableEq σ]

/-- The pairs that some pairs lead to, together with those seen before, if they are all
seen within a number of visits and both patterns may stop in none of them. -/
def explore : Nat → List (Pattern σ × Pattern σ) → List (Pattern σ × Pattern σ) →
    Option (List (Pattern σ × Pattern σ))
  | _, [], seen => some seen
  | 0, _ :: _, _ => none
  | visits + 1, pair :: others, seen =>
      if seen.contains pair then explore visits others seen
      else if pair.1.skips && pair.2.skips then none
      else explore visits (nextPairs pair ++ others) (pair :: seen)

def apart (visits : Nat) (left right : Pattern σ) : Bool :=
  (explore visits [(left, right)] []).isSome

theorem IsClosed.explore {visits : Nat} {waiting seen pairs : List (Pattern σ × Pattern σ)}
    (closed : IsClosed seen waiting) (explored : explore visits waiting seen = some pairs) :
    IsClosed pairs [] ∧ (∀ pair ∈ seen, pair ∈ pairs) ∧ ∀ pair ∈ waiting, pair ∈ pairs := by
  fun_induction Pattern.explore visits waiting seen with
  | case1 =>
      cases explored
      exact ⟨closed, fun _ => id, fun _ member => by cases member⟩
  | case2 => cases explored
  | case3 visits pair others seen again ih =>
      have visited := List.contains_iff_mem.mp again
      obtain ⟨closedPairs, seenListed, othersListed⟩ := ih (closed.of_visited visited) explored
      exact ⟨closedPairs, seenListed, List.forall_mem_cons.mpr ⟨seenListed pair visited, othersListed⟩⟩
  | case4 => cases explored
  | case5 visits pair others seen _ onlyOneStops ih =>
      have visited := closed.visit (Bool.eq_false_iff.mpr onlyOneStops)
      obtain ⟨closedPairs, visitedListed, waitingListed⟩ := ih visited explored
      obtain ⟨pairListed, seenListed⟩ := List.forall_mem_cons.mp visitedListed
      exact ⟨closedPairs, seenListed, List.forall_mem_cons.mpr
        ⟨pairListed, fun next member => waitingListed next (List.mem_append_right _ member)⟩⟩

/-- Two patterns that were found apart have no text in common. -/
theorem not_matches_of_apart {visits : Nat} (apart : left.apart visits right = true)
    (reads : right.Matches text) : ¬ left.Matches text := by
  obtain ⟨pairs, explored⟩ := Option.isSome_iff_exists.mp apart
  have nothingSeen : IsClosed [] [(left, right)] := fun _ member => by cases member
  obtain ⟨closed, _, listed⟩ := nothingSeen.explore explored
  exact fun readsLeft => closed.not_matches (listed _ List.mem_cons_self) readsLeft reads

/-- No text is read as a whole by two patterns that were found apart. -/
theorem whole?_eq_none_of_apart {visits : Nat} (apart : left.apart visits right = true)
    {captures : Captures σ} (read : right.whole? text = some captures) :
    left.whole? text = none := by
  cases readLeft : left.whole? text with
  | none => rfl
  | some other =>
      exact absurd (matches_of_whole? readLeft)
        (not_matches_of_apart apart (matches_of_whole? read))

end Pattern

end Recurrence
