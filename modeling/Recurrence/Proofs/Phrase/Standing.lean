import Recurrence.Proofs.Phrase.Weekdays

namespace Recurrence

/-! Words that stand alone. They are the runs of word characters between the others, and the search
for weekdays that stand alone finds every run that is one of their words, and nothing else. -/

theorem Weekday.mem_sorted {day : Weekday} {days : List Weekday} :
    day ∈ sorted days ↔ day ∈ days := by
  have listed : day ∈ all := by cases day <;> decide
  simp [sorted, listed]

theorem Weekday.sorted_congr {first second : List Weekday}
    (same : ∀ day, day ∈ first ↔ day ∈ second) : sorted first = sorted second := by
  unfold sorted
  refine List.filter_congr fun day _ => ?_
  rw [Bool.eq_iff_iff, List.contains_iff_mem, List.contains_iff_mem, same day]

theorem Weekday.sorted_ascending (days : List Weekday) :
    ((sorted days).map code).Pairwise (· < ·) :=
  List.Pairwise.sublist (List.filter_sublist.map code) (by decide : (all.map code).Pairwise (· < ·))

namespace Phrase

open Pattern

variable {text word : List Char}

/-! Runs of word characters -/

/-- The runs of word characters in a text; where two other characters meet, the run is empty. -/
def wordRuns (text : List Char) : List (List Char) :=
  text.splitOnP (!Text.isWordChar ·)

theorem wordRuns_append_cons {c : Char} (mark : Text.isWordChar c = false)
    (left right : List Char) : wordRuns (left ++ c :: right) = wordRuns left ++ wordRuns right :=
  List.splitOnP_append_cons left right (by simp [mark])

theorem wordRuns_of_wordChars (wordChars : ∀ c ∈ text, Text.isWordChar c = true) :
    wordRuns text = [text] :=
  List.splitOnP_eq_singleton fun c member => by simp [wordChars c member]

/-- A text consists of word characters only, or there is a first one that is none. -/
theorem wordChars_or_exists_mark (text : List Char) :
    (∀ c ∈ text, Text.isWordChar c = true) ∨
      ∃ front c behind, text = front ++ c :: behind ∧ Text.isWordChar c = false ∧
        ∀ d ∈ front, Text.isWordChar d = true := by
  induction text with
  | nil => exact Or.inl (List.forall_mem_nil _)
  | cons c rest ih =>
      cases wordChar : Text.isWordChar c with
      | false => exact Or.inr ⟨[], c, rest, rfl, wordChar, List.forall_mem_nil _⟩
      | true =>
          rcases ih with wordChars | ⟨front, mark, behind, rfl, isMark, wordChars⟩
          · exact Or.inl (List.forall_mem_cons.mpr ⟨wordChar, wordChars⟩)
          · exact Or.inr ⟨c :: front, mark, behind, rfl, isMark,
              List.forall_mem_cons.mpr ⟨wordChar, wordChars⟩⟩

/-- A word stands alone in a text if no word character touches it. -/
def StandsIn (word text : List Char) : Prop :=
  ∃ before behind, text = before ++ (word ++ behind) ∧
    before.getLast?.any Text.isWordChar = false ∧ behind.head?.any Text.isWordChar = false

theorem StandsIn.append {front : List Char} {c : Char} (mark : Text.isWordChar c = false)
    (stands : StandsIn word text) : StandsIn word (front ++ c :: text) := by
  obtain ⟨before, behind, rfl, opens, closes⟩ := stands
  refine ⟨front ++ c :: before, behind, by simp, ?_, closes⟩
  cases before with
  | nil => simpa using mark
  | cons d before =>
      rw [List.getLast?_append, List.getLast?_cons_cons,
        List.getLast?_eq_some_getLast (List.cons_ne_nil _ _), Option.some_or] at *
      exact opens

theorem standsIn_of_mem_wordRuns (run : word ∈ wordRuns text) : StandsIn word text := by
  induction length : text.length using Nat.strongRecOn generalizing text with
  | ind count ih =>
      rcases wordChars_or_exists_mark text with wordChars | ⟨front, c, behind, rfl, mark, wordChars⟩
      · rw [wordRuns_of_wordChars wordChars, List.mem_singleton] at run
        exact ⟨[], [], by simp [run], rfl, rfl⟩
      · rw [wordRuns_append_cons mark, wordRuns_of_wordChars wordChars, List.singleton_append] at run
        rcases List.mem_cons.mp run with rfl | further
        · exact ⟨[], c :: behind, rfl, rfl, by simpa using mark⟩
        · exact (ih behind.length (by simp at length; omega) further rfl).append mark

theorem mem_wordRuns_iff (wordChars : ∀ c ∈ word, Text.isWordChar c = true) :
    word ∈ wordRuns text ↔ StandsIn word text := by
  refine ⟨standsIn_of_mem_wordRuns, fun stands => ?_⟩
  obtain ⟨before, behind, rfl, opens, closes⟩ := stands
  have inFront : word ∈ wordRuns (word ++ behind) := by
    cases behind with
    | nil => simp [wordRuns_of_wordChars wordChars]
    | cons c behind =>
        rw [wordRuns_append_cons (by simpa using closes), wordRuns_of_wordChars wordChars]
        exact List.mem_cons_self
  rcases List.eq_nil_or_concat before with rfl | ⟨front, c, rfl⟩
  · exact inFront
  · rw [List.concat_eq_append, List.append_assoc, List.singleton_append,
      wordRuns_append_cons (by simpa using opens)]
    exact List.mem_append_right _ inFront

/-! Search -/

theorem takeWhile_append_of_ends {inside : Char → Bool} {front back : List Char}
    (chars : ∀ c ∈ front, inside c = true) (ends : back.head?.any inside = false) :
    (front ++ back).takeWhile inside = front := by
  rw [List.takeWhile_append_of_pos chars]
  cases back with
  | nil => simp
  | cons c back => simp [show inside c = false by simpa using ends]

theorem head?_any_append {inside : Char → Bool} {front rest : List Char}
    (outside : ∀ c ∈ front, inside c = false) (ends : front = [] → rest.head?.any inside = false) :
    (front ++ rest).head?.any inside = false := by
  cases front with
  | nil => exact ends rfl
  | cons c front => exact outside c List.mem_cons_self

/-- Two runs that begin at the same place are the same. -/
theorem eq_of_runs {inside : Char → Bool} {first second behind rest : List Char}
    (same : first ++ behind = second ++ rest) (firstChars : ∀ c ∈ first, inside c = true)
    (secondChars : ∀ c ∈ second, inside c = true) (firstEnds : behind.head?.any inside = false)
    (secondEnds : rest.head?.any inside = false) : first = second := by
  rw [← takeWhile_append_of_ends firstChars firstEnds, same,
    takeWhile_append_of_ends secondChars secondEnds]

/-- What stands alone begins behind everything that was found before it. -/
theorem length_le_of_standing {front back read rest : List Char} {before : Option Char}
    (same : front ++ back = read ++ rest) (nonempty : front ≠ [])
    (readChars : ∀ c ∈ read, Text.isWordChar c = true)
    (opens : (front.getLast?.or before).any Text.isWordChar = false) :
    read.length ≤ front.length := by
  refine Nat.le_of_not_lt fun longer => ?_
  have inside : front <+: read :=
    List.prefix_of_prefix_length_le (same ▸ List.prefix_append front back)
      (List.prefix_append read rest) (by omega)
  rw [List.getLast?_eq_some_getLast nonempty] at opens
  have last := readChars _ (inside.subset (List.getLast_mem nonempty))
  simp [last] at opens

theorem or_getLast?_cons (c : Char) (front : List Char) (before : Option Char) :
    (c :: front).getLast?.or before = front.getLast?.or (some c) :=
  congrArg Cursor.before (placeBehind_cons before c front [])

/-- A pattern that reads the words of a class wherever no word character touches them, and nothing
else. -/
structure ReadsAlone (pattern : PhrasePattern) (IsWord : List Char → Prop) : Prop where
  wordChars : ∀ {word}, IsWord word → word ≠ [] ∧ ∀ c ∈ word, Text.isWordChar c = true
  standing : ∀ {place way}, way ∈ pattern.ways place →
    ∃ word, IsWord word ∧ place.rest = word ++ way.2.rest ∧
      place.before.any Text.isWordChar = false ∧ way.2.rest.head?.any Text.isWordChar = false
  readable : ∀ {before word behind}, IsWord word → before.any Text.isWordChar = false →
    behind.head?.any Text.isWordChar = false → pattern.ways ⟨before, word ++ behind⟩ ≠ []

namespace ReadsAlone

variable {pattern : PhrasePattern} {IsWord : List Char → Prop}

/-- What is found at a place is a word that stands alone there. -/
theorem text_of_readAt? (alone : ReadsAlone pattern IsWord) {place : Cursor}
    {found : Occurrence Slot} (read : pattern.readAt? place = some found) :
    IsWord found.text ∧ place.rest = found.text ++ found.stop.rest ∧
      place.before.any Text.isWordChar = false ∧
      found.stop.rest.head?.any Text.isWordChar = false := by
  obtain ⟨start, inWays⟩ := readAt?_eq_some read
  obtain ⟨word, isWord, standing, opens, closes⟩ := alone.standing inWays
  have readText : found.text = word := by rw [Occurrence.text, start, upTo_of_rest_eq standing]
  rw [readText]
  exact ⟨isWord, standing, opens, closes⟩

theorem exists_occurrence (alone : ReadsAlone pattern IsWord) {covered : Nat}
    (before : Option Char) {front behind : List Char} (isWord : IsWord word)
    (place : text = front ++ (word ++ behind))
    (opens : (front.getLast?.or before).any Text.isWordChar = false)
    (closes : behind.head?.any Text.isWordChar = false) (ahead : covered ≤ front.length) :
    ∃ found ∈ pattern.occurrencesFrom covered before text, found.text = word := by
  obtain ⟨nonempty, wordChars⟩ := alone.wordChars isWord
  fun_induction occurrencesFrom pattern covered before text generalizing front with
  | case1 covered before => simp [nonempty] at place
  | case2 before covered c rest ih =>
      cases front with
      | nil => simp at ahead
      | cons d front =>
          cases place
          rw [or_getLast?_cons] at opens
          exact ih rfl opens (Nat.le_of_succ_le_succ ahead)
  | case3 before c rest found read ih =>
      obtain ⟨isFound, standing, _, ends⟩ := alone.text_of_readAt? read
      have readChars := (alone.wordChars isFound).2
      dsimp only at standing
      rw [place] at standing
      cases front with
      | nil =>
          have same : word = found.text := eq_of_runs standing wordChars readChars closes ends
          exact ⟨found, List.mem_cons_self, same.symm⟩
      | cons d front =>
          have behindRead := length_le_of_standing standing (List.cons_ne_nil d front) readChars opens
          cases place
          rw [or_getLast?_cons] at opens
          obtain ⟨later, member, same⟩ := ih rfl opens (by simp at behindRead; omega)
          exact ⟨later, List.mem_cons_of_mem _ member, same⟩
  | case4 before c rest unread ih =>
      cases front with
      | nil =>
          have readable : pattern.ways ⟨before, word ++ behind⟩ ≠ [] :=
            alone.readable isWord opens closes
          rw [← List.nil_append (word ++ behind), ← place] at readable
          exact absurd (readAt?_eq_none_iff.mp unread) readable
      | cons d front =>
          cases place
          rw [or_getLast?_cons] at opens
          exact ih rfl opens (Nat.zero_le _)

/-- The search finds exactly the words that stand alone. -/
theorem exists_occurrence_iff (alone : ReadsAlone pattern IsWord) :
    (∃ found ∈ pattern.occurrences text, found.text = word) ↔ IsWord word ∧ StandsIn word text := by
  constructor
  · intro occurs
    obtain ⟨found, member, rfl⟩ := occurs
    obtain ⟨front, rest, place, read⟩ := exists_place_of_mem_occurrences member
    obtain ⟨isWord, standing, opens, closes⟩ := alone.text_of_readAt? read
    exact ⟨isWord, front, found.stop.rest, by rw [place]; exact congrArg _ standing, opens, closes⟩
  · intro stands
    obtain ⟨isWord, front, behind, place, opens, closes⟩ := stands
    exact alone.exists_occurrence none isWord place (by rwa [Option.or_none]) closes (Nat.zero_le _)

end ReadsAlone

theorem weekdayAlone_readsAlone :
    ReadsAlone weekdayAlone fun word => (Weekday.ofWord? word).isSome where
  wordChars := wordChars_of_weekday
  standing reads := by
    obtain ⟨word, weekday, standing, opens, closes, _⟩ := mem_ways_weekdayAlone.mp reads
    exact ⟨word, weekday, standing, opens, closes⟩
  readable {before word behind} weekday opens closes := by
    have member : ([], placeBehind before word behind) ∈
        weekdayAlone.ways ⟨before, word ++ behind⟩ :=
      mem_ways_weekdayAlone.mpr ⟨word, weekday, rfl, opens, closes, rfl⟩
    exact List.ne_nil_of_mem member

/-- The weekdays of a captured list are those that a run of word characters in it names. -/
theorem weekdaysOf_eq (captures : Captures Slot) :
    weekdaysOf captures =
      Weekday.sorted ((wordRuns (captures.text .weekdays)).filterMap Weekday.ofWord?) := by
  refine Weekday.sorted_congr fun day => ?_
  simp only [List.mem_filterMap]
  constructor
  · intro occurs
    obtain ⟨found, member, named⟩ := occurs
    obtain ⟨weekday, stands⟩ := weekdayAlone_readsAlone.exists_occurrence_iff.mp ⟨found, member, rfl⟩
    exact ⟨_, (mem_wordRuns_iff (wordChars_of_weekday weekday).2).mpr stands, named⟩
  · intro runs
    obtain ⟨word, run, named⟩ := runs
    obtain ⟨found, member, readText⟩ := weekdayAlone_readsAlone.exists_occurrence_iff.mpr
      ⟨Option.isSome_of_mem named, standsIn_of_mem_wordRuns run⟩
    exact ⟨found, member, by rw [readText, named]⟩

end Phrase

end Recurrence
