import Recurrence.Proofs.Pattern.Language

namespace Recurrence

/-! The preferred way of reading on to the end of a text. What stands behind a part of a pattern
is read as it would be read alone from there, so two patterns that end alike and reach the same
place capture the same parts behind it. -/

variable {σ : Type}

namespace Captures

variable [DecidableEq σ] {captures : Captures σ} {slot : σ}

theorem text?_append (first second : Captures σ) (slot : σ) :
    text? (first ++ second) slot = (first.text? slot).or (second.text? slot) := by
  unfold text?
  rw [List.find?_append]
  cases first.find? (·.1 = slot) <;> rfl

theorem text?_eq_none (absent : ∀ part ∈ captures, part.1 ≠ slot) : captures.text? slot = none := by
  rw [text?, Option.map_eq_none_iff, List.find?_eq_none]
  simpa using absent

end Captures

namespace Pattern

variable {pattern first second : Pattern σ} {place : Cursor} {way : Way σ} {text : List Char}

/-- Behind the first part of a sequence the second one is read in the first way that is accepted. -/
theorem find?_ways_seq (accepts : Cursor → Bool)
    (read : ((seq first second).ways place).find? (accepts ·.2) = some way) :
    ∃ front ∈ first.ways place, ∃ back, (second.ways front.2).find? (accepts ·.2) = some back ∧
      way = (front.1 ++ back.1, back.2) := by
  rw [ways, List.find?_flatMap] at read
  obtain ⟨front, member, found⟩ := List.exists_of_findSome?_eq_some read
  rw [List.find?_map] at found
  obtain ⟨back, accepted, rfl⟩ := Option.map_eq_some_iff.mp found
  exact ⟨front, member, back, accepted, rfl⟩

theorem toEnd?_seq (read : (seq first second).toEnd? place = some way) :
    ∃ front ∈ first.ways place, ∃ back, second.toEnd? front.2 = some back ∧
      way = (front.1 ++ back.1, back.2) :=
  find?_ways_seq (·.rest.isEmpty) read

/-! Characters -/

def sets : Pattern σ → List CharSet
  | .empty | .wordEdge | .notAhead _ => []
  | .one set => [set]
  | .seq first second => first.sets ++ second.sets
  | .either preferred other => preferred.sets ++ other.sets
  | .many body => body.sets
  | .capture _ body => body.sets

theorem exists_set_of_matches (reads : pattern.Matches text) :
    ∀ c ∈ text, ∃ set ∈ pattern.sets, set.contains c = true := by
  intro c member
  induction pattern generalizing text with
  | empty | wordEdge | notAhead _ =>
      rw [show text = [] from reads] at member
      cases member
  | one set =>
      obtain ⟨d, rfl, contained⟩ := reads
      exact ⟨set, List.mem_singleton_self _, List.mem_singleton.mp member ▸ contained⟩
  | seq first second ihFirst ihSecond =>
      obtain ⟨front, back, rfl, readsFront, readsBack⟩ := reads
      rcases List.mem_append.mp member with inFront | inBack
      · obtain ⟨set, listed, contained⟩ := ihFirst readsFront inFront
        exact ⟨set, List.mem_append_left _ listed, contained⟩
      · obtain ⟨set, listed, contained⟩ := ihSecond readsBack inBack
        exact ⟨set, List.mem_append_right _ listed, contained⟩
  | either preferred other ihPreferred ihOther =>
      rcases reads with reads | reads
      · obtain ⟨set, listed, contained⟩ := ihPreferred reads member
        exact ⟨set, List.mem_append_left _ listed, contained⟩
      · obtain ⟨set, listed, contained⟩ := ihOther reads member
        exact ⟨set, List.mem_append_right _ listed, contained⟩
  | many body ih =>
      obtain ⟨pieces, rfl, readsPieces⟩ := reads
      obtain ⟨piece, inPieces, inPiece⟩ := List.mem_flatten.mp member
      exact ih (readsPieces piece inPieces) inPiece
  | capture slot body ih => exact ih reads member

end Pattern

end Recurrence
