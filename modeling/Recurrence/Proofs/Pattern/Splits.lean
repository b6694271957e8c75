import Recurrence.Proofs.Pattern.Extend

namespace Recurrence.Pattern

/-! Texts that are cut in two. Two patterns in a row leave no choice where the first one ends if what
the first one may still read, with the second one behind it, is apart from what the second one reads
alone. Then what the first one captures does not depend on the rest of the text. -/

variable {σ : Type} {core tail : Pattern σ}

/-- Patterns that leave no choice where the first one ends and the second one begins. -/
def SplitsUniquely (core tail : Pattern σ) : Prop :=
  ∀ ⦃front back other rest⦄, core.Matches front → tail.Matches back → core.Matches other →
    tail.Matches rest → front ++ back = other ++ rest → front = other

/-! What may be left to read -/

/-- All patterns that a pattern leads to by reading characters. -/
def residuals : Pattern σ → List (Pattern σ)
  | .empty | .wordEdge | .notAhead _ => []
  | .one _ => [.empty]
  | .seq first second => first.residuals.map (·.followedBy second) ++ second.residuals
  | .either preferred other => preferred.residuals ++ other.residuals
  | .many body => body.residuals.map (·.followedBy (.many body))
  | .capture _ body => body.residuals

theorem mem_steps_followedBy {first second : Pattern σ} {step : CharSet × Pattern σ}
    (member : step ∈ (first.followedBy second).steps) :
    (∃ inner ∈ first.steps, step = (inner.1, inner.2.followedBy second)) ∨
      step ∈ second.steps := by
  unfold followedBy at member
  split at member
  · exact Or.inr member
  · rcases List.mem_append.mp member with inFirst | inSecond
    · obtain ⟨inner, listed, rfl⟩ := List.mem_map.mp inFirst
      exact Or.inl ⟨inner, listed, rfl⟩
    · split at inSecond
      · exact Or.inr inSecond
      · cases inSecond

theorem mem_residuals_of_mem_steps {step : CharSet × Pattern σ} (member : step ∈ core.steps) :
    step.2 ∈ core.residuals := by
  induction core generalizing step with
  | empty | wordEdge | notAhead _ => cases member
  | one set =>
      cases List.mem_singleton.mp member
      exact List.mem_singleton_self _
  | seq first second ihFirst ihSecond =>
      rcases List.mem_append.mp member with inFirst | inSecond
      · obtain ⟨inner, listed, rfl⟩ := List.mem_map.mp inFirst
        exact List.mem_append_left _ (List.mem_map_of_mem (ihFirst listed))
      · split at inSecond
        · exact List.mem_append_right _ (ihSecond inSecond)
        · cases inSecond
  | either preferred other ihPreferred ihOther =>
      rcases List.mem_append.mp member with inPreferred | inOther
      · exact List.mem_append_left _ (ihPreferred inPreferred)
      · exact List.mem_append_right _ (ihOther inOther)
  | many body ih =>
      obtain ⟨inner, listed, rfl⟩ := List.mem_map.mp member
      exact List.mem_map_of_mem (ih listed)
  | capture slot body ih => exact ih member

/-- Reading on from what is left leads to nothing else. -/
theorem residuals_closed {residual : Pattern σ} {step : CharSet × Pattern σ}
    (left : residual ∈ core.residuals) (member : step ∈ residual.steps) :
    step.2 ∈ core.residuals := by
  induction core generalizing residual step with
  | empty | wordEdge | notAhead _ => cases left
  | one set =>
      cases List.mem_singleton.mp left
      cases member
  | seq first second ihFirst ihSecond =>
      rcases List.mem_append.mp left with inFirst | inSecond
      · obtain ⟨inner, listed, rfl⟩ := List.mem_map.mp inFirst
        rcases mem_steps_followedBy member with inside | behind
        · obtain ⟨further, inInner, rfl⟩ := inside
          exact List.mem_append_left _ (List.mem_map_of_mem (ihFirst listed inInner))
        · exact List.mem_append_right _ (mem_residuals_of_mem_steps behind)
      · exact List.mem_append_right _ (ihSecond inSecond member)
  | either preferred other ihPreferred ihOther =>
      rcases List.mem_append.mp left with inPreferred | inOther
      · exact List.mem_append_left _ (ihPreferred inPreferred member)
      · exact List.mem_append_right _ (ihOther inOther member)
  | many body ih =>
      obtain ⟨inner, listed, rfl⟩ := List.mem_map.mp left
      rcases mem_steps_followedBy member with inside | again
      · obtain ⟨further, inInner, rfl⟩ := inside
        exact List.mem_map_of_mem (ih listed inInner)
      · exact mem_residuals_of_mem_steps again
  | capture slot body ih => exact ih left member

theorem exists_residual_of_mem {start : Pattern σ} {front rest : List Char}
    (left : start ∈ core.residuals) (reads : start.Matches (front ++ rest)) :
    ∃ residual ∈ core.residuals, residual.Matches rest := by
  induction front generalizing start with
  | nil => exact ⟨start, left, reads⟩
  | cons c front ih =>
      obtain ⟨step, inSteps, _, further⟩ := exists_step_of_matches_cons reads
      exact ih (residuals_closed left inSteps) further

theorem exists_residual {front rest : List Char} (reads : core.Matches (front ++ rest))
    (nonempty : front ≠ []) : ∃ residual ∈ core.residuals, residual.Matches rest := by
  obtain ⟨c, front, rfl⟩ := List.exists_cons_of_ne_nil nonempty
  obtain ⟨step, inSteps, _, further⟩ := exists_step_of_matches_cons reads
  exact exists_residual_of_mem (mem_residuals_of_mem_steps inSteps) further

theorem exists_residual_or_core {front rest : List Char} (reads : core.Matches (front ++ rest)) :
    ∃ residual ∈ core :: core.residuals, residual.Matches rest := by
  cases front with
  | nil => exact ⟨core, List.mem_cons_self, reads⟩
  | cons c front =>
      obtain ⟨residual, left, readsRest⟩ := exists_residual reads (List.cons_ne_nil c front)
      exact ⟨residual, List.mem_cons_of_mem _ left, readsRest⟩

/-- Whatever is left of a pattern, nothing that goes on with it is what another one reads alone. -/
def cutsBefore [DecidableEq σ] (visits : Nat) (core tail : Pattern σ) : Bool :=
  (core :: core.residuals).all fun residual => residual.steps.all fun step =>
    (seq (one step.1) (seq step.2 tail)).apart visits tail

theorem splitsUniquely_of_cutsBefore [DecidableEq σ] {visits : Nat}
    (cuts : cutsBefore visits core tail = true) : SplitsUniquely core tail := by
  -- The shorter front goes on with a character that only the longer one reads.
  have longer {front more back rest : List Char} {c : Char}
      (readsLonger : core.Matches (front ++ c :: more)) (readsRest : tail.Matches rest)
      (readsBack : tail.Matches back) (same : back = (c :: more) ++ rest) : False := by
    obtain ⟨residual, left, readsMore⟩ := exists_residual_or_core readsLonger
    obtain ⟨step, inSteps, contained, further⟩ := exists_step_of_matches_cons readsMore
    have apart := List.all_eq_true.mp (List.all_eq_true.mp cuts residual left) step inSteps
    refine not_matches_of_apart apart readsBack ?_
    exact ⟨[c], more ++ rest, same, ⟨c, rfl, contained⟩, more, rest, rfl, further, readsRest⟩
  intro front back other rest readsFront readsBack readsOther readsRest same
  rcases List.append_eq_append_iff.mp same with ⟨more, rfl, onward⟩ | ⟨more, rfl, onward⟩
  · cases more with
    | nil => exact (List.append_nil front).symm
    | cons c more => exact (longer readsOther readsRest readsBack onward).elim
  · cases more with
    | nil => exact List.append_nil other
    | cons c more => exact (longer readsFront readsBack readsRest onward).elim

/-! Captures of the front -/

theorem toEnd?_seq_eq (first second : Pattern σ) (place : Cursor) :
    (seq first second).toEnd? place = (first.ways place).findSome? fun way =>
      (second.toEnd? way.2).map fun further => (way.1 ++ further.1, further.2) := by
  rw [toEnd?, ways, List.find?_flatMap]
  congr 1
  funext way
  rw [List.find?_map]
  rfl

theorem findSome?_eq_of_find? {α β : Type} {f : α → Option β} {viable : α → Bool} {list : List α}
    {first : α} (leads : ∀ a ∈ list, (f a).isSome = viable a)
    (found : list.find? viable = some first) : list.findSome? f = f first := by
  induction list with
  | nil => cases found
  | cons a list ih =>
      obtain ⟨leadsHere, leadsLater⟩ := List.forall_mem_cons.mp leads
      rw [List.find?_cons] at found
      rw [List.findSome?_cons]
      cases here : viable a with
      | true =>
          rw [here] at found leadsHere
          cases found
          obtain ⟨b, same⟩ := Option.isSome_iff_exists.mp leadsHere
          rw [same]
      | false =>
          rw [here] at found leadsHere
          have nothing : f a = none := by simpa using leadsHere
          rw [nothing]
          exact ih leadsLater found

/-- The preferred way through the front alone is the preferred one up to where the rest begins. -/
theorem find?_ways_extend {front rest : List Char}
    (plain : core.isPlain = true) :
    (core.ways (.start (front ++ rest))).find? (fun way => way.2.rest.length = rest.length) =
      (core.toEnd? (.start front)).map (·.extend rest) := by
  have inside : (core.ways (.start (front ++ rest))).find?
      (fun way => way.2.rest.length = rest.length) =
        (leaving rest (core.ways (.start (front ++ rest)))).find?
          (fun way => way.2.rest.length = rest.length) := by
    rw [leaving, List.find?_filter]
    congr 1
    funext way
    simp only [decide_eq_true_eq, decide_eq_decide]
    omega
  have same : leaving rest (core.ways ((Cursor.start front).extend rest)) =
      (core.ways (.start front)).map (·.extend rest) := ways_extend plain
  rw [inside, show Cursor.start (front ++ rest) = (Cursor.start front).extend rest from rfl, same,
    List.find?_map, toEnd?]
  congr 2
  funext way
  cases standing : way.2.rest with
  | nil => simp [Way.extend, Cursor.extend, standing]
  | cons c others =>
      simp [Way.extend, Cursor.extend, standing]
      omega

/-- What is captured of the front of a text does not depend on what the rest of it is. -/
theorem whole?_of_splitsUniquely {front rest : List Char}
    (plainCore : core.isPlain = true) (plainTail : tail.isPlain = true)
    (splits : SplitsUniquely core tail) (readsFront : core.Matches front)
    (readsRest : tail.Matches rest) :
    ∃ way further, core.toEnd? (.start front) = some way ∧
      tail.toEnd? ⟨way.2.before, rest⟩ = some further ∧
      (seq core tail).whole? (front ++ rest) = some (Captures.extend way.1 rest ++ further.1) := by
  have readable : (core.toEnd? (.start front)).isSome :=
    isSome_toEnd?_of_matches plainCore readsFront
  obtain ⟨way, found⟩ := Option.isSome_iff_exists.mp readable
  have ended : way.2.rest = [] := by simpa using List.find?_some found
  have readableRest : (tail.toEnd? ⟨way.2.before, rest⟩).isSome :=
    isSome_toEnd?_of_matches plainTail readsRest
  obtain ⟨further, foundRest⟩ := Option.isSome_iff_exists.mp readableRest
  refine ⟨way, further, found, foundRest, ?_⟩
  have first : (core.ways (.start (front ++ rest))).find?
      (fun way => way.2.rest.length = rest.length) = some (way.extend rest) := by
    rw [find?_ways_extend plainCore, found]
    rfl
  -- A way through the core leads on to the end exactly if it stops where the front does.
  have leads : ∀ other ∈ core.ways (.start (front ++ rest)),
      ((tail.toEnd? other.2).map fun more => (other.1 ++ more.1, more.2)).isSome =
        decide (other.2.rest.length = rest.length) := by
    intro other member
    obtain ⟨read, cut, reads⟩ := matches_of_mem_ways member
    rw [Option.isSome_map, Bool.eq_iff_iff, decide_eq_true_iff]
    constructor
    · intro leads
      obtain ⟨more, readsMore⟩ := Option.isSome_iff_exists.mp leads
      have same : front = read :=
        splits readsFront readsRest reads (matches_of_toEnd? readsMore) cut
      rw [← same] at cut
      exact congrArg List.length (List.append_cancel_left cut).symm
    · intro length
      have same : rest = other.2.rest := List.append_inj_right' cut length.symm
      exact isSome_toEnd?_of_matches plainTail (same ▸ readsRest)
  have place : (way.extend rest).2 = ⟨way.2.before, rest⟩ := by
    simp [Way.extend, Cursor.extend, ended]
  have read : (seq core tail).toEnd? (.start (front ++ rest)) =
      some ((way.extend rest).1 ++ further.1, further.2) := by
    rw [toEnd?_seq_eq, findSome?_eq_of_find? leads first, place, foundRest]
    rfl
  exact congrArg (Option.map Prod.fst) read

end Recurrence.Pattern
