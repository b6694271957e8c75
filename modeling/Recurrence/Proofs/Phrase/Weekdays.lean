import Mathlib.Logic.Basic
import Recurrence.Phrase.Rules
import Recurrence.Proofs.Pattern.Search

namespace Recurrence

/-! Weekdays in captured lists. Only the ones that stand alone between characters that belong
to no word are found there. -/

theorem Weekday.isSome_ofWord?_iff {word : List Char} :
    (Weekday.ofWord? word).isSome ↔ ∃ entry ∈ Weekday.lexicon, entry.1.toList = word := by
  simp [Weekday.ofWord?]

theorem Weekday.sorted_eq_nil_iff {days : List Weekday} : Weekday.sorted days = [] ↔ days = [] := by
  have complete : ∀ day : Weekday, day ∈ Weekday.all := by
    intro day
    cases day <;> decide
  simp only [Weekday.sorted, List.filter_eq_nil_iff, List.contains_iff_mem]
  exact ⟨fun absent => List.eq_nil_iff_forall_not_mem.mpr fun day => absent day (complete day),
    fun empty day _ => by simp [empty]⟩

namespace Phrase

open Pattern

/-! The words for weekdays -/

def weekdayTexts : List String :=
  ["monday", "tuesday", "wednesday", "thursday", "friday", "saturday", "sunday",
    "thurs", "thur", "tues", "mon", "tue", "wed", "thu", "fri", "sat", "sun"]

theorem isSome_ofWord?_iff_mem_weekdayTexts {word : List Char} :
    (Weekday.ofWord? word).isSome ↔ ∃ text ∈ weekdayTexts, text.toList = word := by
  have known : ∀ entry ∈ Weekday.lexicon, entry.1 ∈ weekdayTexts := by decide
  have meant : ∀ text ∈ weekdayTexts, ∃ entry ∈ Weekday.lexicon, entry.1 = text := by decide
  rw [Weekday.isSome_ofWord?_iff]
  constructor
  · intro known
    obtain ⟨entry, member, rfl⟩ := known
    exact ⟨entry.1, known entry member, rfl⟩
  · intro listed
    obtain ⟨text, member, rfl⟩ := listed
    obtain ⟨entry, inLexicon, same⟩ := meant text member
    exact ⟨entry, inLexicon, congrArg String.toList same⟩

theorem wordChars_of_weekday {word : List Char} (weekday : (Weekday.ofWord? word).isSome) :
    word ≠ [] ∧ ∀ c ∈ word, Text.isWordChar c = true := by
  have all : ∀ entry ∈ Weekday.lexicon,
      entry.1.toList ≠ [] ∧ entry.1.toList.all Text.isWordChar = true := by decide
  obtain ⟨entry, member, rfl⟩ := Weekday.isSome_ofWord?_iff.mp weekday
  exact (all entry member).imp_right List.all_eq_true.mp

theorem mem_ways_weekdayWord {place : Cursor} {way : Way Slot} :
    way ∈ weekdayWord.ways place ↔
      ∃ word, (Weekday.ofWord? word).isSome ∧ place.rest = word ++ way.2.rest ∧
        way = ([], placeBehind place.before word way.2.rest) := by
  have texts : weekdayWord = anyOf (weekdayTexts.map word) := rfl
  rw [texts, mem_ways_anyOf (by decide)]
  simp only [List.mem_map, isSome_ofWord?_iff_mem_weekdayTexts]
  constructor
  · intro reads
    obtain ⟨_, ⟨text, member, rfl⟩, inText⟩ := reads
    exact ⟨text.toList, ⟨text, member, rfl⟩, mem_ways_literal.mp inText⟩
  · intro reads
    obtain ⟨_, ⟨text, member, rfl⟩, inText⟩ := reads
    exact ⟨_, ⟨text, member, rfl⟩, mem_ways_literal.mpr inText⟩

/-! Weekdays that stand alone -/

/-- A text names a weekday if one of its words for a weekday is not a part of a longer word. -/
def NamesWeekday (text : List Char) : Prop :=
  ∃ before word behind, text = before ++ (word ++ behind) ∧ (Weekday.ofWord? word).isSome ∧
    before.getLast?.any Text.isWordChar = false ∧ behind.head?.any Text.isWordChar = false

theorem atWordEdge_of_wordChars {before : Option Char} {word behind : List Char}
    (nonempty : word ≠ []) (wordChars : ∀ c ∈ word, Text.isWordChar c = true) :
    (Cursor.mk before (word ++ behind)).atWordEdge = true ↔
      before.any Text.isWordChar = false := by
  obtain ⟨c, rest, rfl⟩ := List.exists_cons_of_ne_nil nonempty
  simp [Cursor.atWordEdge, wordChars c List.mem_cons_self]

theorem placeBehind_atWordEdge_of_wordChars {before : Option Char} {word behind : List Char}
    (nonempty : word ≠ []) (wordChars : ∀ c ∈ word, Text.isWordChar c = true) :
    (placeBehind before word behind).atWordEdge = true ↔
      behind.head?.any Text.isWordChar = false := by
  have last : (word.getLast?.or before).any Text.isWordChar = true := by
    rw [List.getLast?_eq_some_getLast nonempty]
    exact wordChars _ (List.getLast_mem nonempty)
  simp [placeBehind, Cursor.atWordEdge, last]

theorem mem_ways_weekdayAlone {place : Cursor} {way : Way Slot} :
    way ∈ weekdayAlone.ways place ↔
      ∃ word, (Weekday.ofWord? word).isSome ∧ place.rest = word ++ way.2.rest ∧
        place.before.any Text.isWordChar = false ∧
        way.2.rest.head?.any Text.isWordChar = false ∧
        way = ([], placeBehind place.before word way.2.rest) := by
  obtain ⟨before, rest⟩ := place
  simp only [weekdayAlone, inOrder, mem_ways_seq, mem_ways_wordEdge]
  constructor
  · intro reads
    obtain ⟨_, ⟨opens, rfl⟩, _, ⟨front, inWord, _, ⟨closes, rfl⟩, rfl⟩, rfl⟩ := reads
    obtain ⟨word, weekday, standing, same⟩ := mem_ways_weekdayWord.mp inWord
    obtain ⟨nonempty, wordChars⟩ := wordChars_of_weekday weekday
    dsimp only at standing opens
    rw [standing, atWordEdge_of_wordChars nonempty wordChars] at opens
    rw [same, placeBehind_atWordEdge_of_wordChars nonempty wordChars] at closes
    exact ⟨word, weekday, standing, opens, closes, by rw [same]; rfl⟩
  · intro reads
    obtain ⟨word, weekday, standing, opens, closes, same⟩ := reads
    obtain ⟨nonempty, wordChars⟩ := wordChars_of_weekday weekday
    refine ⟨_, ⟨?_, rfl⟩, way, ⟨way, ?_, ([], way.2), ⟨?_, rfl⟩, ?_⟩, ?_⟩
    · rw [show rest = word ++ way.2.rest from standing]
      rwa [atWordEdge_of_wordChars nonempty wordChars]
    · exact mem_ways_weekdayWord.mpr ⟨word, weekday, standing, same⟩
    · rwa [same, placeBehind_atWordEdge_of_wordChars nonempty wordChars]
    · rw [List.append_nil]
    · rfl

theorem weekdayAlone_occurrence {text : List Char} {found : Occurrence Slot}
    (member : found ∈ weekdayAlone.occurrences text) : (Weekday.ofWord? found.text).isSome := by
  obtain ⟨front, rest, _, read⟩ := exists_place_of_mem_occurrences member
  obtain ⟨start, inWays⟩ := readAt?_eq_some read
  obtain ⟨word, weekday, standing, _⟩ := mem_ways_weekdayAlone.mp inWays
  rwa [Occurrence.text, start, upTo_of_rest_eq standing]

theorem weekdayAlone_occurrences_ne_nil_iff {text : List Char} :
    weekdayAlone.occurrences text ≠ [] ↔ NamesWeekday text := by
  rw [occurrences_ne_nil_iff]
  constructor
  · intro occurs
    obtain ⟨before, rest, rfl, readable⟩ := occurs
    obtain ⟨way, member⟩ := List.exists_mem_of_ne_nil _ readable
    obtain ⟨word, weekday, standing, opens, closes, _⟩ := mem_ways_weekdayAlone.mp member
    exact ⟨before, word, way.2.rest, by rw [← standing], weekday, opens, closes⟩
  · intro names
    obtain ⟨before, word, behind, rfl, weekday, opens, closes⟩ := names
    let place : Cursor := ⟨before.getLast?, word ++ behind⟩
    have member : ([], placeBehind place.before word behind) ∈ weekdayAlone.ways place :=
      mem_ways_weekdayAlone.mpr ⟨word, weekday, rfl, opens, closes, rfl⟩
    exact ⟨before, word ++ behind, rfl, List.ne_nil_of_mem member⟩

/-- A captured list comes to no weekdays at all exactly if none of its words stands alone. -/
theorem weekdaysOf_eq_nil_iff {captures : Captures Slot} :
    weekdaysOf captures = [] ↔ ¬ NamesWeekday (captures.text .weekdays) := by
  have meant : ∀ found ∈ weekdayAlone.occurrences (captures.text .weekdays),
      ¬ Weekday.ofWord? found.text = none := fun found member =>
    Option.isSome_iff_ne_none.mp (weekdayAlone_occurrence member)
  rw [← weekdayAlone_occurrences_ne_nil_iff, not_ne_iff, weekdaysOf, Weekday.sorted_eq_nil_iff,
    List.filterMap_eq_nil_iff]
  exact ⟨fun absent => List.eq_nil_iff_forall_not_mem.mpr fun found member =>
    meant found member (absent found member), fun empty => by simp [empty]⟩

end Phrase

end Recurrence
