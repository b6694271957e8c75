import Recurrence.Proofs.Pattern.Search

namespace Recurrence.Pattern

/-! The first value that a search finds. Where no reading reaches over a place at which another one
could begin, the search leaves no reading out, so what it finds first is what stands leftmost. -/

variable {σ α : Type} {pattern : Pattern σ} {value? : Cursor → Option α} {text : List Char}
  {before : Option Char} {value : α}

/-- No reading reaches over a place at which another one begins. -/
def NeverOverlaps (pattern : Pattern σ) : Prop :=
  ∀ ⦃place found⦄, pattern.readAt? place = some found → ∀ front rest, place.rest = front ++ rest →
    front ≠ [] → front.length < found.text.length →
      pattern.readAt? (placeBehind place.before front rest) = none

/-- The value at the leftmost place of a text that has one. -/
def leftmost? (value? : Cursor → Option α) : Option Char → List Char → Option α
  | before, [] => value? ⟨before, []⟩
  | before, c :: rest => (value? ⟨before, c :: rest⟩).or (leftmost? value? (some c) rest)

theorem forall_place_cons {c : Char} (property : List Char → Cursor → Prop) :
    (∀ front rest, c :: text = front ++ rest → property front (placeBehind before front rest)) ↔
      property [] ⟨before, c :: text⟩ ∧
        ∀ front rest, text = front ++ rest →
          property (c :: front) (placeBehind (some c) front rest) := by
  constructor
  · intro everywhere
    refine ⟨everywhere [] (c :: text) rfl, fun front rest place => ?_⟩
    rw [← placeBehind_cons before]
    exact everywhere (c :: front) rest (congrArg _ place)
  · intro split front rest place
    cases front with
    | nil =>
        subst place
        exact split.1
    | cons d front =>
        cases place
        rw [placeBehind_cons]
        exact split.2 front rest rfl

theorem exists_place_cons {c : Char} (property : List Char → Cursor → Prop) :
    (∃ front rest, c :: text = front ++ rest ∧ property front (placeBehind before front rest)) ↔
      property [] ⟨before, c :: text⟩ ∨
        ∃ front rest, text = front ++ rest ∧
          property (c :: front) (placeBehind (some c) front rest) := by
  constructor
  · intro found
    obtain ⟨front, rest, place, holds⟩ := found
    cases front with
    | nil =>
        subst place
        exact Or.inl holds
    | cons d front =>
        cases place
        rw [placeBehind_cons] at holds
        exact Or.inr ⟨front, rest, rfl, holds⟩
  · intro found
    rcases found with here | ⟨front, rest, rfl, holds⟩
    · exact ⟨[], c :: text, rfl, here⟩
    · exact ⟨c :: front, rest, rfl, by rwa [placeBehind_cons]⟩

theorem leftmost?_eq_none_iff :
    leftmost? value? before text = none ↔
      ∀ front rest, text = front ++ rest → value? (placeBehind before front rest) = none := by
  induction text generalizing before with
  | nil =>
      refine ⟨fun absent front rest place => ?_, fun absent => absent [] [] rfl⟩
      obtain ⟨rfl, rfl⟩ := List.append_eq_nil_iff.mp place.symm
      exact absent
  | cons c rest ih =>
      rw [leftmost?, Option.or_eq_none_iff, ih,
        forall_place_cons fun _ place => value? place = none]

/-- The leftmost value stands at some place, and no place before has one. -/
theorem leftmost?_eq_some_iff :
    leftmost? value? before text = some value ↔
      ∃ front rest, text = front ++ rest ∧ value? (placeBehind before front rest) = some value ∧
        ∀ front' rest', text = front' ++ rest' → front'.length < front.length →
          value? (placeBehind before front' rest') = none := by
  induction text generalizing before with
  | nil =>
      constructor
      · intro here
        exact ⟨[], [], rfl, here, fun _ _ _ shorter => absurd shorter (Nat.not_lt_zero _)⟩
      · intro found
        obtain ⟨front, rest, place, here, _⟩ := found
        obtain ⟨rfl, rfl⟩ := List.append_eq_nil_iff.mp place.symm
        exact here
  | cons c rest ih =>
      -- Before a place of the rest come the first place of all and the places of the rest before it.
      have earlier (front : List Char) :
          (∀ front' rest', c :: rest = front' ++ rest' → front'.length < front.length + 1 →
            value? (placeBehind before front' rest') = none) ↔
          value? ⟨before, c :: rest⟩ = none ∧
            ∀ front' rest', rest = front' ++ rest' → front'.length < front.length →
              value? (placeBehind (some c) front' rest') = none := by
        rw [forall_place_cons fun other place => other.length < front.length + 1 → value? place = none]
        simp only [List.length_nil, Nat.succ_pos, true_imp_iff, List.length_cons,
          Nat.add_lt_add_iff_right]
      rw [leftmost?, Option.or_eq_some_iff, ih, exists_place_cons fun front place =>
        value? place = some value ∧ ∀ front' rest', c :: rest = front' ++ rest' →
          front'.length < front.length → value? (placeBehind before front' rest') = none]
      simp only [List.length_cons, earlier, List.length_nil, Nat.not_lt_zero, false_imp_iff,
        implies_true, and_true, and_left_comm (b := value? ⟨before, c :: rest⟩ = none), exists_and_left]

theorem findSome?_occurrencesFrom (apart : pattern.NeverOverlaps) (f : Occurrence σ → Option α)
    {covered : Nat} (unread : ∀ front rest, text = front ++ rest → front.length < covered →
      pattern.readAt? (placeBehind before front rest) = none) :
    (pattern.occurrencesFrom covered before text).findSome? f =
      leftmost? (fun place => (pattern.readAt? place).bind f) before text := by
  fun_induction occurrencesFrom pattern covered before text with
  | case1 =>
      rw [leftmost?]
      cases pattern.readAt? ⟨_, []⟩ <;> simp
  | case2 covered before c rest ih =>
      rw [leftmost?, ih fun front rest place shorter => ?_]
      · have here : pattern.readAt? ⟨before, c :: rest⟩ = none :=
          unread [] (c :: rest) rfl (Nat.succ_pos covered)
        rw [here, Option.bind_none, Option.none_or]
      · rw [← placeBehind_cons before]
        exact unread (c :: front) rest (congrArg _ place) (Nat.succ_lt_succ shorter)
  | case3 before c rest found read ih =>
      rw [leftmost?, read, List.findSome?_cons, Option.bind_some, ih fun front behind place shorter => ?_]
      · cases f found <;> rfl
      · rw [← placeBehind_cons before]
        exact apart read (c :: front) behind (congrArg _ place) (List.cons_ne_nil c front)
          (by rw [List.length_cons]; omega)
  | case4 before c rest absent ih =>
      rw [leftmost?, absent, Option.bind_none, Option.none_or,
        ih fun _ _ _ shorter => absurd shorter (Nat.not_lt_zero _)]

/-- What the search finds first is what stands leftmost. -/
theorem findSome?_occurrences (apart : pattern.NeverOverlaps) (f : Occurrence σ → Option α)
    (text : List Char) :
    (pattern.occurrences text).findSome? f =
      leftmost? (fun place => (pattern.readAt? place).bind f) none text :=
  findSome?_occurrencesFrom apart f fun _ _ _ shorter => absurd shorter (Nat.not_lt_zero _)

end Recurrence.Pattern
