import Recurrence.Phrase.Loose
import Recurrence.Proofs.Phrase.Standing

namespace Recurrence.Phrase

/-! The weekdays that a text mentions. The search for them looks up whole words: a day is found
exactly if one of the runs of word characters is a name of it, in the singular or in the plural. -/

open Pattern

variable {text word name : List Char} {day : Weekday}

/-- A run is the word for a weekday, or that word with an "s" behind it. -/
def Mentions (run : List Char) (day : Weekday) : Prop :=
  Weekday.ofWord? run = some day ∨ ∃ name, run = name ++ ['s'] ∧ Weekday.ofWord? name = some day

/-- Word characters that stand together in a text, as many as there are. -/
def IsRunOf (run text : List Char) : Prop :=
  run ≠ [] ∧ (∀ c ∈ run, Text.isWordChar c = true) ∧ StandsIn run text

theorem mentions_of_ending {ending : List Char} (named : Weekday.ofWord? name = some day)
    (isEnding : ending = ['s'] ∨ ending = []) : Mentions (name ++ ending) day := by
  rcases isEnding with rfl | rfl
  · exact Or.inr ⟨name, rfl, named⟩
  · rw [List.append_nil]
    exact Or.inl named

theorem Mentions.exists_ending (mentions : Mentions word day) :
    ∃ name ending, word = name ++ ending ∧ Weekday.ofWord? name = some day ∧
      (ending = ['s'] ∨ ending = []) := by
  rcases mentions with named | ⟨name, rfl, named⟩
  · exact ⟨word, [], (List.append_nil word).symm, named, Or.inr rfl⟩
  · exact ⟨name, ['s'], rfl, named, Or.inl rfl⟩

/-- Some words are words for a weekday with and without their last "s", but always for the same. -/
theorem Mentions.unique {other : Weekday} (first : Mentions word day)
    (second : Mentions word other) : day = other := by
  have plurals : ∀ one ∈ Weekday.lexicon, ∀ many ∈ Weekday.lexicon,
      many.1.toList = one.1.toList ++ ['s'] → one.2 = many.2 := by decide
  have entryOf {name : List Char} {day : Weekday} (named : Weekday.ofWord? name = some day) :
      ∃ entry ∈ Weekday.lexicon, entry.1.toList = name ∧ entry.2 = day := by
    obtain ⟨entry, found, same⟩ := Option.map_eq_some_iff.mp named
    exact ⟨entry, List.mem_of_find?_eq_some found, by simpa using List.find?_some found, same⟩
  have plural {name : List Char} {one many : Weekday} (named : Weekday.ofWord? name = some one)
      (renamed : Weekday.ofWord? (name ++ ['s']) = some many) : one = many := by
    obtain ⟨singular, inLexicon, rfl, rfl⟩ := entryOf named
    obtain ⟨entry, alsoInLexicon, same, rfl⟩ := entryOf renamed
    exact plurals singular inLexicon entry alsoInLexicon same
  rcases first with named | ⟨name, rfl, named⟩
  · rcases second with renamed | ⟨name, rfl, renamed⟩
    · exact Option.some.inj (named.symm.trans renamed)
    · exact (plural renamed named).symm
  · rcases second with renamed | ⟨other, same, renamed⟩
    · exact plural named renamed
    · rw [List.append_cancel_right same] at named
      exact Option.some.inj (named.symm.trans renamed)

theorem Mentions.wordChars (mentions : Mentions word day) :
    word ≠ [] ∧ ∀ c ∈ word, Text.isWordChar c = true := by
  obtain ⟨name, ending, rfl, named, isEnding⟩ := mentions.exists_ending
  obtain ⟨nonempty, wordChars⟩ := wordChars_of_weekday (Option.isSome_of_mem named)
  refine ⟨List.append_ne_nil_of_left_ne_nil nonempty _, List.forall_mem_append.mpr ⟨wordChars, ?_⟩⟩
  rcases isEnding with rfl | rfl <;> exact List.all_eq_true.mp (by decide)

/-! The search -/

theorem mem_ways_pluralEnding {place : Cursor} {way : Way Slot} :
    way ∈ (optional "s" : PhrasePattern).ways place ↔
      ∃ ending, (ending = ['s'] ∨ ending = []) ∧ place.rest = ending ++ way.2.rest ∧
        way = ([], placeBehind place.before ending way.2.rest) := by
  have plural : way ∈ (word "s" : PhrasePattern).ways place ↔ place.rest = ['s'] ++ way.2.rest ∧
      way = ([], placeBehind place.before ['s'] way.2.rest) := mem_ways_literal
  have singular : way ∈ (literal [] : PhrasePattern).ways place ↔ place.rest = [] ++ way.2.rest ∧
      way = ([], placeBehind place.before [] way.2.rest) := mem_ways_literal
  simp only [or_and_right, exists_or, exists_eq_left, ← plural, ← singular]
  exact List.mem_append

theorem placeBehind_append (before : Option Char) (front back rest : List Char) :
    placeBehind before (front ++ back) rest =
      placeBehind (placeBehind before front (back ++ rest)).before back rest := by
  simp [placeBehind, List.getLast?_append, Option.or_assoc]

theorem mem_ways_weekdayMention {place : Cursor} {way : Way Slot} :
    way ∈ weekdayMention.ways place ↔
      ∃ name ending, (Weekday.ofWord? name).isSome ∧ (ending = ['s'] ∨ ending = []) ∧
        place.rest = (name ++ ending) ++ way.2.rest ∧
        place.before.any Text.isWordChar = false ∧
        way.2.rest.head?.any Text.isWordChar = false ∧
        way = ([(.weekday, place, placeBehind place.before name (ending ++ way.2.rest))],
          placeBehind place.before (name ++ ending) way.2.rest) := by
  have wordChars {name ending : List Char} (weekday : (Weekday.ofWord? name).isSome)
      (isEnding : ending = ['s'] ∨ ending = []) :
      name ++ ending ≠ [] ∧ ∀ c ∈ name ++ ending, Text.isWordChar c = true := by
    obtain ⟨day, named⟩ := Option.isSome_iff_exists.mp weekday
    exact (mentions_of_ending named isEnding).wordChars
  obtain ⟨before, rest⟩ := place
  obtain ⟨captures, stop, behind⟩ := way
  simp only [weekdayMention, inOrder, mem_ways_seq, mem_ways_wordEdge]
  constructor
  · intro reads
    obtain ⟨_, ⟨opens, rfl⟩, _, ⟨_, inName, ⟨_, _, further⟩, ⟨⟨_, _, last⟩, inEnding, _,
      ⟨closes, rfl⟩, whole⟩, inside⟩, outside⟩ := reads
    obtain ⟨⟨_, _, middle⟩, inWord, rfl⟩ := List.mem_map.mp inName
    obtain ⟨name, weekday, standing, same⟩ := mem_ways_weekdayWord.mp inWord
    obtain ⟨ending, isEnding, onward, reached⟩ := mem_ways_pluralEnding.mp inEnding
    obtain ⟨nonempty, chars⟩ := wordChars weekday isEnding
    cases whole
    cases inside
    cases outside
    cases same
    cases reached
    dsimp only at standing onward opens
    subst onward
    rw [standing, ← List.append_assoc, atWordEdge_of_wordChars nonempty chars] at opens
    have ends : (placeBehind before (name ++ ending) behind).atWordEdge = true := by
      rwa [placeBehind_append]
    rw [placeBehind_atWordEdge_of_wordChars nonempty chars] at ends
    refine ⟨name, ending, weekday, isEnding, ?_, opens, ends, ?_⟩
    · rw [standing, List.append_assoc]
    · rw [placeBehind_append]
      rfl
  · intro reads
    obtain ⟨name, ending, weekday, isEnding, standing, opens, closes, same⟩ := reads
    obtain ⟨nonempty, chars⟩ := wordChars weekday isEnding
    rw [← atWordEdge_of_wordChars nonempty chars, ← standing] at opens
    have ends : (placeBehind before (name ++ ending) behind).atWordEdge = true := by
      rwa [placeBehind_atWordEdge_of_wordChars nonempty chars]
    rw [placeBehind_append] at same ends
    let middle := placeBehind before name (ending ++ behind)
    let last := placeBehind middle.before ending behind
    refine ⟨_, ⟨opens, rfl⟩, _, ⟨([(.weekday, ⟨before, rest⟩, middle)], middle), ?_, _,
      ⟨([], last), mem_ways_pluralEnding.mpr ⟨ending, isEnding, rfl, rfl⟩, _, ⟨?_, rfl⟩, rfl⟩, rfl⟩,
      same⟩
    · refine List.mem_map.mpr ⟨([], middle), mem_ways_weekdayWord.mpr ⟨name, weekday, ?_, rfl⟩, rfl⟩
      rw [standing, List.append_assoc]
      rfl
    · exact ends

theorem weekdayMention_readsAlone :
    ReadsAlone weekdayMention fun word => ∃ day, Mentions word day where
  wordChars mentioned := mentioned.elim fun _ mentions => mentions.wordChars
  standing reads := by
    obtain ⟨name, ending, weekday, isEnding, standing, opens, closes, _⟩ :=
      mem_ways_weekdayMention.mp reads
    obtain ⟨day, named⟩ := Option.isSome_iff_exists.mp weekday
    exact ⟨name ++ ending, ⟨day, mentions_of_ending named isEnding⟩, standing, opens, closes⟩
  readable {before word behind} mentioned opens closes := by
    obtain ⟨day, mentions⟩ := mentioned
    obtain ⟨name, ending, rfl, named, isEnding⟩ := mentions.exists_ending
    let place : Cursor := ⟨before, name ++ ending ++ behind⟩
    have member : ([(.weekday, place, placeBehind before name (ending ++ behind))],
        placeBehind before (name ++ ending) behind) ∈ weekdayMention.ways place :=
      mem_ways_weekdayMention.mpr
        ⟨name, ending, Option.isSome_of_mem named, isEnding, rfl, opens, closes, rfl⟩
    exact List.ne_nil_of_mem member

/-- The captured part of what is found is a word for the day that the whole of it mentions. -/
theorem mentions_of_mem_occurrences {found : Occurrence Slot}
    (member : found ∈ weekdayMention.occurrences text) :
    ∃ day, Weekday.ofWord? (found.captures.text .weekday) = some day ∧ Mentions found.text day := by
  obtain ⟨front, rest, _, read⟩ := exists_place_of_mem_occurrences member
  obtain ⟨start, inWays⟩ := readAt?_eq_some read
  obtain ⟨name, ending, weekday, isEnding, standing, _, _, same⟩ :=
    mem_ways_weekdayMention.mp inWays
  obtain ⟨day, named⟩ := Option.isSome_iff_exists.mp weekday
  have readText : found.text = name ++ ending := by
    rw [Occurrence.text, start, upTo_of_rest_eq standing]
  have captured : found.captures.text .weekday = name := by
    rw [(Prod.mk.inj same).1]
    exact upTo_of_rest_eq (by rw [standing, List.append_assoc]; rfl)
  exact ⟨day, captured ▸ named, readText ▸ mentions_of_ending named isEnding⟩

theorem mem_findWeekdays_iff :
    day ∈ findWeekdays text ↔ ∃ run, IsRunOf run text ∧ Mentions run day := by
  rw [findWeekdays, Weekday.mem_sorted, List.mem_filterMap]
  constructor
  · intro occurs
    obtain ⟨found, member, named⟩ := occurs
    obtain ⟨other, renamed, mentions⟩ := mentions_of_mem_occurrences member
    obtain rfl := Option.some.inj (renamed.symm.trans named)
    obtain ⟨_, stands⟩ := weekdayMention_readsAlone.exists_occurrence_iff.mp ⟨found, member, rfl⟩
    exact ⟨found.text, ⟨mentions.wordChars.1, mentions.wordChars.2, stands⟩, mentions⟩
  · intro runs
    obtain ⟨run, ⟨_, _, stands⟩, mentions⟩ := runs
    obtain ⟨found, member, rfl⟩ :=
      weekdayMention_readsAlone.exists_occurrence_iff.mpr ⟨⟨day, mentions⟩, stands⟩
    obtain ⟨other, named, alsoMentions⟩ := mentions_of_mem_occurrences member
    exact ⟨found, member, alsoMentions.unique mentions ▸ named⟩

/-! Runs of several texts -/

theorem isRunOf_append_cons_iff {run left right : List Char} {c : Char}
    (mark : Text.isWordChar c = false) :
    IsRunOf run (left ++ c :: right) ↔ IsRunOf run left ∨ IsRunOf run right := by
  have split (wordChars : ∀ c ∈ run, Text.isWordChar c = true) :
      StandsIn run (left ++ c :: right) ↔ StandsIn run left ∨ StandsIn run right := by
    simp only [← mem_wordRuns_iff wordChars, wordRuns_append_cons mark, List.mem_append]
  unfold IsRunOf
  rw [← and_or_left, ← and_or_left]
  exact and_congr_right fun _ => and_congr_right split

/-- The weekdays that are found in a text are looked up by whole words: their codes ascend, and each
is that of a run of word characters which is a word for the day, with or without an "s". So the days
of texts with a blank between them are those of each text. -/
theorem findWeekdays_wholeWords :
    (∀ text, ((findWeekdays text).map Weekday.code).Pairwise (· < ·) ∧
      ∀ n, n ∈ (findWeekdays text).map Weekday.code ↔
        ∃ run day, IsRunOf run text ∧ Mentions run day ∧ day.code = n) ∧
    ∀ first second, findWeekdays (first ++ ' ' :: second) =
      Weekday.sorted (findWeekdays first ++ findWeekdays second) := by
  refine ⟨fun text => ⟨Weekday.sorted_ascending _, fun n => ?_⟩, fun first second => ?_⟩
  · simp only [List.mem_map, mem_findWeekdays_iff]
    constructor
    · intro listed
      obtain ⟨day, ⟨run, isRun, mentions⟩, code⟩ := listed
      exact ⟨run, day, isRun, mentions, code⟩
    · intro mentioned
      obtain ⟨run, day, isRun, mentions, code⟩ := mentioned
      exact ⟨day, ⟨run, isRun, mentions⟩, code⟩
  · rw [findWeekdays]
    refine Weekday.sorted_congr fun day => ?_
    rw [← Weekday.mem_sorted, ← findWeekdays, mem_findWeekdays_iff, List.mem_append,
      mem_findWeekdays_iff, mem_findWeekdays_iff]
    simp only [isRunOf_append_cons_iff (show Text.isWordChar ' ' = false by decide), or_and_right,
      exists_or]

example : (findWeekdays "thurs, mons; tue_ xfri monday's".toList).map Weekday.code = [1, 4] := by
  decide

end Recurrence.Phrase
