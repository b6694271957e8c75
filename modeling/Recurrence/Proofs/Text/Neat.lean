import Mathlib.Data.List.Chain
import Recurrence.Proofs.Text.Cutting
import Recurrence.Proofs.Text.Spaces
import Recurrence.Proofs.Text.Words

namespace Recurrence.Text

/-! Texts whose blanks are single spaces between words. They are what joining words gives, and
cutting them at their blanks loses nothing. -/

variable {text word piece : List Char} {parts : List (List Char)} {c : Char}

/-! What joined words are made of -/

theorem IsSpaced.isInfix (spaced : IsSpaced parts text) (member : word ∈ parts) : word <:+: text := by
  induction spaced with
  | nil => cases member
  | blank _ _ ih => exact (ih member).trans (List.suffix_cons _ _).isInfix
  | word _ _ _ ih =>
      rcases List.mem_cons.mp member with rfl | further
      · exact (List.prefix_append _ _).isInfix
      · exact (ih further).trans (List.suffix_append _ _).isInfix

theorem mem_unwords (member : c ∈ unwords parts) : c = ' ' ∨ ∃ word ∈ parts, c ∈ word :=
  mem_of_mem_intercalate member

theorem infix_unwords_iff (nonempty : piece ≠ []) (solid : ' ' ∉ piece) :
    piece <:+: unwords parts ↔ ∃ word ∈ parts, piece <:+: word := by
  induction parts with
  | nil => simpa [unwords, List.intercalate] using nonempty
  | cons word others ih =>
      cases others with
      | nil => simp
      | cons next others =>
          rw [unwords_cons_cons, infix_append_cons_iff solid, ih, List.exists_mem_cons_iff _ word]

theorem countP_unwords_cons (word : List Char) (others : List (List Char)) :
    (unwords (word :: others)).countP (!isBlank ·) =
      word.countP (!isBlank ·) + (unwords others).countP (!isBlank ·) := by
  cases others with
  | nil => simp
  | cons next others =>
      rw [unwords_cons_cons, List.countP_append, List.countP_cons]
      rfl

theorem IsSpaced.countP_unwords (spaced : IsSpaced parts text) :
    (unwords parts).countP (!isBlank ·) = text.countP (!isBlank ·) := by
  induction spaced with
  | nil => rfl
  | blank blank _ ih => simp [blank, ih]
  | word _ _ _ ih => rw [countP_unwords_cons, List.countP_append, ih]

/-! Neat texts -/

structure IsNeat (text : List Char) : Prop where
  onlySpaces : HasOnlySpaces text
  head : ∀ c ∈ text.head?, isBlank c = false
  last : ∀ c ∈ text.getLast?, isBlank c = false
  single : text.IsChain fun c next => isBlank c = false ∨ isBlank next = false

theorem isNeat_word (isWord : IsWord word) : IsNeat word where
  onlySpaces := hasOnlySpaces_of_solid isWord.2
  head c head := isWord.2 c (List.mem_of_mem_head? head)
  last c last := isWord.2 c (List.mem_of_mem_getLast? last)
  single := (List.pairwise_of_forall_mem_list fun c member _ _ => Or.inl (isWord.2 c member)).isChain

theorem IsNeat.append_space {further : List Char} (first : IsNeat text) (second : IsNeat further)
    (nonempty : text ≠ []) (goesOn : further ≠ []) : IsNeat (text ++ ' ' :: further) where
  onlySpaces := first.onlySpaces.append (List.forall_mem_cons.mpr ⟨fun _ => rfl, second.onlySpaces⟩)
  head := by
    rw [List.head?_append_of_ne_nil _ nonempty]
    exact first.head
  last := by
    rw [List.getLast?_append_cons, List.getLast?_cons_of_ne_nil goesOn]
    exact second.last
  single := by
    refine List.isChain_append.mpr ⟨first.single, List.isChain_cons.mpr ⟨?_, second.single⟩, ?_⟩
    · exact fun c head => Or.inr (second.head c head)
    · exact fun c last _ _ => Or.inl (first.last c last)

theorem IsNeat.of_append_space {before : List Char} (neat : IsNeat (before ++ ' ' :: text))
    (goesOn : text ≠ []) : IsNeat text where
  onlySpaces c member := neat.onlySpaces c (by simp [member])
  head c head := by
    have chain := (List.isChain_append.mp neat.single).2.1
    exact ((List.isChain_cons.mp chain).1 c head).resolve_left (by decide)
  last := by
    have last := neat.last
    rwa [List.getLast?_append_cons, List.getLast?_cons_of_ne_nil goesOn] at last
  single := (List.isChain_append.mp neat.single).2.1.tail

theorem unwords_ne_nil {others : List (List Char)} (isWord : IsWord word) :
    unwords (word :: others) ≠ [] := by
  cases others with
  | nil => exact fun empty => isWord.1 (unwords_singleton word ▸ empty)
  | cons next others =>
      rw [unwords_cons_cons]
      simp

theorem isNeat_unwords (areWords : ∀ word ∈ parts, IsWord word) : IsNeat (unwords parts) := by
  induction parts with
  | nil => exact ⟨nofun, nofun, nofun, .nil⟩
  | cons word others ih =>
      obtain ⟨isWord, areOthers⟩ := List.forall_mem_cons.mp areWords
      cases others with
      | nil => exact (unwords_singleton word).symm ▸ isNeat_word isWord
      | cons next others =>
          rw [unwords_cons_cons]
          exact (isNeat_word isWord).append_space (ih areOthers) isWord.1
            (unwords_ne_nil (areOthers next List.mem_cons_self))

/-- Behind a word there is nothing, or a space and a neat text. -/
theorem IsSpaced.unwords_eq (spaced : IsSpaced parts text) (neat : IsNeat text) :
    unwords parts = text := by
  suffices both : (IsNeat text → unwords parts = text) ∧
      ∀ rest, text = ' ' :: rest → rest ≠ [] → IsNeat rest → unwords parts = rest from both.1 neat
  clear neat
  induction spaced with
  | nil => exact ⟨fun _ => rfl, nofun⟩
  | @blank parts c text blank spaced ih =>
      constructor
      · intro neat
        have solid := neat.head c rfl
        rw [blank] at solid
        cases solid
      · rintro rest same _ neat
        cases same
        exact ih.1 neat
  | @word word behind others isWord apart spaced ih =>
      constructor
      · intro neat
        cases behind with
        | nil =>
            have noOthers : others = [] := spaced.words_eq.symm
            rw [noOthers, unwords_singleton, List.append_nil]
        | cons c rest =>
            obtain rfl : c = ' ' := neat.onlySpaces c (by simp) (apart c rfl)
            have goesOn : rest ≠ [] := by
              rintro rfl
              exact absurd (neat.last ' ' (by simp)) (by decide)
            have further := ih.2 rest rfl goesOn (neat.of_append_space goesOn)
            cases others with
            | nil => exact absurd further.symm goesOn
            | cons next others => rw [unwords_cons_cons, further]
      · rintro rest same
        obtain ⟨c, word, rfl⟩ := List.exists_cons_of_ne_nil isWord.1
        cases same
        exact absurd (isWord.2 ' ' List.mem_cons_self) (by decide)

theorem unwords_words_eq_self_iff : unwords (words text) = text ↔ IsNeat text := by
  constructor
  · intro same
    exact same ▸ isNeat_unwords fun word => isWord_of_mem_words
  · exact (isSpaced_words text).unwords_eq

end Recurrence.Text
