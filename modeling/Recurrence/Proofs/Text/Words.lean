import Mathlib.Data.List.TakeWhile
import Recurrence.Text.Blank

namespace Recurrence.Text

/-! Words and the blanks between them. Setting words side by side and cutting the text at
its blanks again gives the same words. -/

def IsWord (word : List Char) : Prop :=
  word ≠ [] ∧ ∀ c ∈ word, isBlank c = false

instance (word : List Char) : Decidable (IsWord word) :=
  decidable_of_iff (word ≠ [] ∧ word.all (!isBlank ·) = true)
    (and_congr_right fun _ => by simp only [List.all_eq_true, Bool.not_eq_true'])

theorem isBlank_space : isBlank ' ' = true := by decide

theorem words_singleton (c : Char) : words [c] = if isBlank c then [] else [[c]] := rfl

theorem words_cons_cons (c next : Char) (rest : List Char) :
    words (c :: next :: rest) =
      if isBlank c then words (next :: rest)
      else if isBlank next then [c] :: words (next :: rest)
      else match words (next :: rest) with
        | [] => [[c]]
        | word :: others => (c :: word) :: others := rfl

theorem words_cons_blank {c : Char} (blank : isBlank c = true) (rest : List Char) :
    words (c :: rest) = words rest := by
  cases rest with
  | nil => exact if_pos blank
  | cons next rest => exact if_pos blank

theorem words_cons_last {c : Char} (solid : isBlank c = false) : words [c] = [[c]] := by
  rw [words_singleton, if_neg (Bool.eq_false_iff.mp solid)]

theorem words_cons_of_blank {c next : Char} (solid : isBlank c = false)
    (blank : isBlank next = true) (rest : List Char) :
    words (c :: next :: rest) = [c] :: words rest := by
  rw [words_cons_cons, if_neg (Bool.eq_false_iff.mp solid), if_pos blank, words_cons_blank blank]

/-- Behind a character that is not blank a word goes on, so there is one. -/
theorem words_cons_of_solid {c next : Char} {word : List Char} {others : List (List Char)}
    {rest : List Char} (solid : isBlank c = false) (solidNext : isBlank next = false)
    (behind : words (next :: rest) = word :: others) :
    words (c :: next :: rest) = (c :: word) :: others := by
  rw [words_cons_cons, if_neg (Bool.eq_false_iff.mp solid),
    if_neg (Bool.eq_false_iff.mp solidNext), behind]

theorem words_word {word : List Char} (isWord : IsWord word) : words word = [word] := by
  obtain ⟨nonempty, solid⟩ := isWord
  induction word with
  | nil => exact absurd rfl nonempty
  | cons c rest ih =>
      have solidHead := solid c List.mem_cons_self
      cases rest with
      | nil => exact words_cons_last solidHead
      | cons next rest =>
          have solidNext := solid next (List.mem_cons_of_mem _ List.mem_cons_self)
          exact words_cons_of_solid solidHead solidNext
            (ih (List.cons_ne_nil _ _) fun d member => solid d (List.mem_cons_of_mem _ member))

theorem words_ne_nil {c : Char} (solid : isBlank c = false) (rest : List Char) :
    words (c :: rest) ≠ [] := by
  cases rest with
  | nil => simp [words_cons_last solid]
  | cons next rest =>
      rw [words_cons_cons, if_neg (Bool.eq_false_iff.mp solid)]
      repeat' split
      all_goals simp

/-- A blank ends a word, so the words on its two sides do not depend on each other. -/
theorem words_append_blank {blank : Char} (isBlank : isBlank blank = true) (left right : List Char) :
    words (left ++ blank :: right) = words left ++ words right := by
  induction left with
  | nil => exact words_cons_blank isBlank right
  | cons c rest ih =>
      cases blankHead : Text.isBlank c with
      | true => rw [List.cons_append, words_cons_blank blankHead, words_cons_blank blankHead, ih]
      | false =>
          cases rest with
          | nil =>
              rw [words_cons_last blankHead]
              exact words_cons_of_blank blankHead isBlank right
          | cons next rest =>
              cases blankNext : Text.isBlank next with
              | true =>
                  have tail : words (rest ++ blank :: right) = words rest ++ words right := by
                    rw [← words_cons_blank blankNext, ← words_cons_blank blankNext rest]
                    exact ih
                  rw [words_cons_of_blank blankHead blankNext]
                  exact (words_cons_of_blank blankHead blankNext _).trans (congrArg _ tail)
              | false =>
                  cases behind : words (next :: rest) with
                  | nil => exact absurd behind (words_ne_nil blankNext rest)
                  | cons word others =>
                      rw [words_cons_of_solid blankHead blankNext behind]
                      exact words_cons_of_solid blankHead blankNext (ih.trans (by rw [behind]; rfl))

theorem words_word_append {word : List Char} (isWord : IsWord word) {blank : Char}
    (isBlank : isBlank blank = true) (rest : List Char) :
    words (word ++ blank :: rest) = word :: words rest := by
  rw [words_append_blank isBlank, words_word isWord]
  rfl

@[simp] theorem unwords_nil : unwords [] = [] := rfl

@[simp] theorem unwords_singleton (word : List Char) : unwords [word] = word := by
  simp [unwords, List.intercalate]

theorem unwords_cons_cons (word next : List Char) (others : List (List Char)) :
    unwords (word :: next :: others) = word ++ ' ' :: unwords (next :: others) := by
  simp [unwords, List.intercalate]

theorem words_unwords {parts : List (List Char)} (areWords : ∀ part ∈ parts, IsWord part) :
    words (unwords parts) = parts := by
  induction parts with
  | nil => rfl
  | cons word others ih =>
      have isWord := areWords word List.mem_cons_self
      cases others with
      | nil => rw [unwords_singleton, words_word isWord]
      | cons next others =>
          rw [unwords_cons_cons, words_word_append isWord isBlank_space,
            ih fun part member => areWords part (List.mem_cons_of_mem _ member)]

theorem words_eq_nil {text : List Char} (blank : ∀ c ∈ text, isBlank c = true) :
    words text = [] := by
  induction text with
  | nil => rfl
  | cons c rest ih =>
      rw [words_cons_blank (blank c List.mem_cons_self)]
      exact ih fun d member => blank d (List.mem_cons_of_mem _ member)

/-! Both ends of a text -/

section Strip

variable {isOuter : Char → Bool} {before behind : List Char}

theorem strip_of_ends {text : List Char} (first : ∀ c ∈ text.head?, isOuter c = false)
    (last : ∀ c ∈ text.getLast?, isOuter c = false) : strip isOuter text = text := by
  have kept {side : List Char} (inner : ∀ c ∈ side.head?, isOuter c = false) :
      side.dropWhile isOuter = side := by
    cases side with
    | nil => rfl
    | cons c rest => simp [inner c rfl]
  rw [strip, kept first, kept (List.head?_reverse ▸ last), List.reverse_reverse]

/-- Characters of the class around a text are taken away with those that it has itself. -/
theorem strip_of_margins (outerBefore : ∀ c ∈ before, isOuter c = true)
    (outerBehind : ∀ c ∈ behind, isOuter c = true) (text : List Char) :
    strip isOuter (before ++ text ++ behind) = strip isOuter text := by
  have noMargin : behind.dropWhile isOuter = [] := List.dropWhile_eq_nil_iff.mpr outerBehind
  have front : (before ++ text ++ behind).dropWhile isOuter = (text ++ behind).dropWhile isOuter := by
    rw [List.append_assoc]
    exact List.dropWhile_append_of_pos outerBefore
  unfold strip
  rw [front, List.dropWhile_append]
  split
  · rename_i allOuter
    rw [noMargin, List.isEmpty_iff.mp allOuter]
  · have back : (behind.reverse ++ (text.dropWhile isOuter).reverse).dropWhile isOuter =
        (text.dropWhile isOuter).reverse.dropWhile isOuter :=
      List.dropWhile_append_of_pos fun c member => outerBehind c (List.mem_reverse.mp member)
    rw [List.reverse_append, back]

theorem exists_stripped (isOuter : Char → Bool) (text : List Char) :
    ∃ before behind, text = before ++ strip isOuter text ++ behind ∧
      (∀ c ∈ before, isOuter c = true) ∧ ∀ c ∈ behind, isOuter c = true := by
  have outer {side : List Char} : ∀ c ∈ side.takeWhile isOuter, isOuter c = true :=
    fun c member => List.mem_takeWhile_imp member
  have front : text = text.takeWhile isOuter ++ text.dropWhile isOuter :=
    List.takeWhile_append_dropWhile.symm
  have back : (text.dropWhile isOuter).reverse =
      (text.dropWhile isOuter).reverse.takeWhile isOuter ++
        (text.dropWhile isOuter).reverse.dropWhile isOuter :=
    List.takeWhile_append_dropWhile.symm
  refine ⟨text.takeWhile isOuter, ((text.dropWhile isOuter).reverse.takeWhile isOuter).reverse, ?_,
    outer, fun c member => outer c (List.mem_reverse.mp member)⟩
  rw [List.append_assoc, strip, ← List.reverse_append, ← back, List.reverse_reverse, ← front]

end Strip

theorem trim_of_ends {text : List Char} (first : ∀ c ∈ text.head?, isBlank c = false)
    (last : ∀ c ∈ text.getLast?, isBlank c = false) : trim text = text :=
  strip_of_ends first last

theorem trim_of_solid {text : List Char} (solid : ∀ c ∈ text, isBlank c = false) :
    trim text = text :=
  trim_of_ends (fun c head => solid c (List.mem_of_mem_head? head))
    (fun c last => solid c (List.mem_of_mem_getLast? last))

/-- Blanks around a text are cut off with those that it has itself. -/
theorem trim_of_margins {before behind : List Char} (blankBefore : ∀ c ∈ before, isBlank c = true)
    (blankBehind : ∀ c ∈ behind, isBlank c = true) (text : List Char) :
    trim (before ++ text ++ behind) = trim text :=
  strip_of_margins blankBefore blankBehind text

theorem exists_margins (text : List Char) :
    ∃ before behind, text = before ++ trim text ++ behind ∧ (∀ c ∈ before, isBlank c = true) ∧
      ∀ c ∈ behind, isBlank c = true :=
  exists_stripped isBlank text

theorem infix_trimLeft (text : List Char) : trimLeft text <:+: text :=
  (List.dropWhile_suffix _).isInfix

theorem infix_trim (text : List Char) : trim text <:+: text := by
  refine List.IsInfix.trans ?_ (infix_trimLeft text)
  have shortened := List.reverse_infix.mpr (infix_trimLeft (trimLeft text).reverse)
  rwa [List.reverse_reverse] at shortened

/-! Blanks around words -/

/-- Texts that consist of the given words, with at least one blank between two of them and any
blanks in front of the first and behind the last. -/
inductive IsSpaced : List (List Char) → List Char → Prop
  | nil : IsSpaced [] []
  | blank {parts : List (List Char)} {c : Char} {text : List Char} (blank : isBlank c = true)
      (spaced : IsSpaced parts text) : IsSpaced parts (c :: text)
  | word {word behind : List Char} {others : List (List Char)} (isWord : IsWord word)
      (apart : ∀ c ∈ behind.head?, isBlank c = true) (spaced : IsSpaced others behind) :
      IsSpaced (word :: others) (word ++ behind)

theorem IsSpaced.words_eq {parts : List (List Char)} {text : List Char}
    (spaced : IsSpaced parts text) : words text = parts := by
  induction spaced with
  | nil => rfl
  | blank blank spaced ih => exact (words_cons_blank blank _).trans ih
  | @word word behind others isWord apart spaced ih =>
      cases behind with
      | nil => rw [List.append_nil, words_word isWord, ← ih, words]
      | cons c rest =>
          have blank := apart c rfl
          rw [words_word_append isWord blank, ← ih, words_cons_blank blank]

theorem isSpaced_words (text : List Char) : IsSpaced (words text) text := by
  induction text with
  | nil => exact .nil
  | cons c rest ih =>
      cases blankHead : isBlank c with
      | true => exact words_cons_blank blankHead rest ▸ .blank blankHead ih
      | false =>
          have single : IsWord [c] :=
            ⟨List.cons_ne_nil _ _, fun d member => List.mem_singleton.mp member ▸ blankHead⟩
          cases rest with
          | nil => exact words_cons_last blankHead ▸ .word single nofun .nil
          | cons next rest =>
              cases blankNext : isBlank next with
              | true =>
                  rw [words_cons_of_blank blankHead blankNext, ← words_cons_blank blankNext rest]
                  exact .word single (fun d head => Option.some.inj head ▸ blankNext) ih
              | false =>
                  -- The word goes on, so the first word of the rest is its end.
                  cases behind : words (next :: rest) with
                  | nil => exact absurd behind (words_ne_nil blankNext rest)
                  | cons first others =>
                      rw [behind] at ih
                      rw [words_cons_of_solid blankHead blankNext behind]
                      generalize cut : next :: rest = tail at ih
                      cases ih with
                      | blank blank spaced =>
                          cases cut
                          rw [blankNext] at blank
                          cases blank
                      | word isWord apart spaced =>
                          have grown : IsWord (c :: first) := by
                            refine ⟨List.cons_ne_nil _ _, fun d member => ?_⟩
                            rcases List.mem_cons.mp member with rfl | inFirst
                            · exact blankHead
                            · exact isWord.2 d inFirst
                          exact .word grown apart spaced

theorem IsSpaced.areWords {parts : List (List Char)} {text : List Char}
    (spaced : IsSpaced parts text) : ∀ word ∈ parts, IsWord word := by
  induction spaced with
  | nil => exact fun word member => absurd member List.not_mem_nil
  | blank blank spaced ih => exact ih
  | word isWord apart spaced ih => exact List.forall_mem_cons.mpr ⟨isWord, ih⟩

theorem isWord_of_mem_words {word text : List Char} (member : word ∈ words text) :
    IsWord word :=
  (isSpaced_words text).areWords word member

/-- The words of a text are exactly those it consists of when its blanks are left out. -/
theorem isSpaced_iff {parts : List (List Char)} {text : List Char} :
    IsSpaced parts text ↔ words text = parts := by
  refine ⟨IsSpaced.words_eq, fun same => ?_⟩
  exact same ▸ isSpaced_words text

end Recurrence.Text
