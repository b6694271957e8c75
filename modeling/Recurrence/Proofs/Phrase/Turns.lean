import Recurrence.Proofs.Phrase.Canonical
import Recurrence.Proofs.Phrase.Captures
import Recurrence.Proofs.Unambiguity

namespace Recurrence

/-! Weekdays that come in a turn. The turn may be written with any number of digits, and all of them
are captured. -/

namespace Pattern

variable {σ : Type}

/-- Repetitions of a single character may go on as long as the characters do. -/
theorem mem_ways_many_one {set : CharSet} {read rest : List Char} {before : Option Char}
    (contained : ∀ c ∈ read, set.contains c = true) :
    (([], placeBehind before read rest) : Way σ) ∈ (many (one set)).ways ⟨before, read ++ rest⟩ := by
  have further (limit : List Char) (enough : read.length ≤ limit.length) :
      (([], placeBehind before read rest) : Way σ) ∈
        repeated (fun inner => (one set).ways inner) limit ⟨before, read ++ rest⟩ := by
    induction read generalizing before limit with
    | nil =>
        cases limit with
        | nil => exact List.mem_singleton_self _
        | cons _ others => exact List.mem_append_right _ (List.mem_singleton_self _)
    | cons c read ih =>
        match limit, enough with
        | _ :: others, enough =>
            obtain ⟨head, tail⟩ := List.forall_mem_cons.mp contained
            have once : (([], ⟨some c, read ++ rest⟩) : Way σ) ∈
                (one set).ways ⟨before, c :: (read ++ rest)⟩ := by simp [ways, head]
            refine List.mem_append_left _ (List.mem_flatMap.mpr ⟨_, once, ?_⟩)
            rw [placeBehind_cons]
            exact List.mem_map.mpr ⟨_, ih tail others (Nat.le_of_succ_le_succ enough), rfl⟩
  exact further _ (by simp)

theorem mem_ways_digits {read rest : List Char} {before : Option Char} (nonempty : read ≠ [])
    (isDigits : ∀ c ∈ read, Text.isDigit c = true) :
    (([], placeBehind before read rest) : Way σ) ∈ digits.ways ⟨before, read ++ rest⟩ := by
  obtain ⟨c, read, rfl⟩ := List.exists_cons_of_ne_nil nonempty
  obtain ⟨head, tail⟩ := List.forall_mem_cons.mp isDigits
  rw [placeBehind_cons]
  refine mem_ways_seq.mpr ⟨([], ⟨some c, read ++ rest⟩), ?_, _, mem_ways_many_one tail, rfl⟩
  simp [digit, ways, CharSet.contains, head]

end Pattern

namespace Phrase

open Pattern

/-- The rule for turns in digits. -/
def turnRule : Rule := ⟨nthWeekdayPattern (.seq digits ordinalEnding), nthWeekdayOf⟩

theorem turnRule_mem_rules : turnRule ∈ rules :=
  List.mem_append_right _ (List.mem_cons_of_mem _ List.mem_cons_self)

/-- What follows the turn. -/
def behindTurn : PhrasePattern :=
  inOrder [blanks, capture .weekday weekdayWord, maybeOfMonth, maybeAtTime]

variable {numeral : List Char}

theorem isSome_turnRule (isNumeral : IsNumeral numeral) :
    (turnRule.pattern.whole? (numeral ++ "th friday".toList)).isSome := by
  have inDigits : (([], placeBehind none numeral "th friday".toList) : Way Slot) ∈
      digits.ways ⟨none, numeral ++ "th friday".toList⟩ :=
    mem_ways_digits isNumeral.1 isNumeral.2
  have inEnding (before : Option Char) :
      (([], ⟨some 'h', " friday".toList⟩) : Way Slot) ∈
        ordinalEnding.ways ⟨before, "th friday".toList⟩ :=
    (mem_ways_anyOf (by simp)).mpr ⟨word "th", by simp, mem_ways_literal.mpr ⟨rfl, rfl⟩⟩
  obtain ⟨way, inBehind, ended⟩ : ∃ way ∈ behindTurn.ways ⟨some 'h', " friday".toList⟩,
      way.2.rest.isEmpty := by decide
  rw [whole?, Option.isSome_map, List.find?_isSome]
  refine ⟨_, mem_ways_seq.mpr ⟨_, mem_ways_optional.mpr (Or.inr rfl), _, mem_ways_seq.mpr
    ⟨_, mem_ways_optional.mpr (Or.inr rfl), _, mem_ways_seq.mpr ⟨_, List.mem_map.mpr
      ⟨_, mem_ways_seq.mpr ⟨_, inDigits, _, inEnding _, rfl⟩, rfl⟩, way, inBehind, rfl⟩, rfl⟩, rfl⟩,
    ended⟩

/-- Where a digit stands, an optional part that has none is left out. -/
theorem optional_way_eq {pattern : PhrasePattern} {place : Cursor} {way : Way Slot} {c : Char}
    {rest : List Char} (standing : place.rest = c :: rest) (isDigit : Text.isDigit c = true)
    (solid : pattern.skips = false) (apart : ∀ set ∈ pattern.sets, set.apart .digit = true)
    (member : way ∈ (Pattern.optional pattern).ways place) : way = ([], place) := by
  rcases mem_ways_optional.mp member with inPattern | rfl
  · obtain ⟨read, cut, reads⟩ := matches_of_mem_ways inPattern
    cases read with
    | nil =>
        rw [skips_of_matches_nil reads] at solid
        cases solid
    | cons d read =>
        rw [standing] at cut
        cases cut
        rw [not_isDigit_of_apart apart reads c List.mem_cons_self] at isDigit
        cases isDigit
  · rfl

theorem takeWhile_isDigit {digits : List Char} (isDigits : ∀ c ∈ digits, Text.isDigit c = true)
    {c : Char} (noDigit : Text.isDigit c = false) (rest : List Char) :
    (digits ++ c :: rest).takeWhile Text.isDigit = digits := by
  rw [List.takeWhile_append_of_pos isDigits, List.takeWhile_cons_of_neg (by simp [noDigit]),
    List.append_nil]

/-- The rule for turns captures all digits of the turn. -/
theorem turn_of_turnRule (isNumeral : IsNumeral numeral) {captures : Captures Slot}
    (read : turnRule.pattern.whole? (numeral ++ "th friday".toList) = some captures) :
    (captures.text .turn).filter Text.isDigit = numeral := by
  obtain ⟨c, others, same⟩ := List.exists_cons_of_ne_nil isNumeral.1
  have first : Text.isDigit c = true := isNumeral.2 c (same ▸ List.mem_cons_self)
  have standing : (Cursor.start (numeral ++ "th friday".toList)).rest =
      c :: (others ++ "th friday".toList) := by rw [same]; rfl
  obtain ⟨whole, wholeEnded, rfl⟩ := Option.map_eq_some_iff.mp read
  obtain ⟨every, inEvery, afterEvery, everyEnded, rfl⟩ := toEnd?_seq wholeEnded
  cases optional_way_eq standing first (by decide) (by decide) inEvery
  obtain ⟨the, inThe, afterThe, theEnded, rfl⟩ := toEnd?_seq everyEnded
  cases optional_way_eq standing first (by decide) (by decide) inThe
  obtain ⟨turn, inTurn, behind, _, rfl⟩ := toEnd?_seq theEnded
  obtain ⟨inner, inOrdinal, rfl⟩ := List.mem_map.mp inTurn
  obtain ⟨_, cut, number, ending, rfl, readsNumber, readsEnding⟩ := matches_of_mem_ways inOrdinal
  have captured : Captures.text ((Slot.turn, Cursor.start (numeral ++ "th friday".toList), inner.2) ::
      (inner.1 ++ behind.1)) .turn = number ++ ending := upTo_of_rest_eq cut
  have numberDigits := (isNumeral_of_digits readsNumber).2
  have endingLetters := not_isDigit_of_apart (by decide) readsEnding
  have noEnding : ending.filter Text.isDigit = [] := by simpa using endingLetters
  refine (congrArg (List.filter Text.isDigit) captured).trans ?_
  rw [List.filter_append, List.filter_eq_self.mpr numberDigits, noEnding, List.append_nil]
  -- Both the text and what was captured of it begin with all the digits in front of a letter.
  cases ending with
  | nil => exact absurd (skips_of_matches_nil readsEnding) (by decide)
  | cons d ending =>
      have shared := congrArg (List.takeWhile Text.isDigit) cut
      rw [Cursor.start, List.append_assoc, List.cons_append,
        takeWhile_isDigit numberDigits (endingLetters d List.mem_cons_self)] at shared
      rw [← shared]
      exact takeWhile_isDigit isNumeral.2 (by decide) _

theorem canonical_turn (nonempty : numeral ≠ [])
    (plain : ∀ c ∈ numeral, Text.isPlainDigit c = true) :
    canonical (numeral ++ "th friday".toList) = numeral ++ "th friday".toList := by
  have written : numeral ++ "th friday".toList =
      Text.unwords [numeral ++ "th".toList, "friday".toList] := by
    rw [Text.unwords_cons_cons, Text.unwords_singleton, List.append_assoc]
    rfl
  have digitRange : ∀ c ∈ numeral, 48 ≤ c.toNat ∧ c.toNat ≤ 57 :=
    fun c member => Text.toNat_of_isPlainDigit (plain c member)
  have wordFriday : Text.IsWord "friday".toList := by decide
  have wordEnding : Text.IsWord "th".toList := by decide
  have wordTurn : Text.IsWord (numeral ++ "th".toList) := by
    refine ⟨List.append_ne_nil_of_left_ne_nil nonempty _,
      List.forall_mem_append.mpr ⟨?_, wordEnding.2⟩⟩
    intro c member
    exact Text.isBlank_of_isDigit (Text.isDigit_of_isPlainDigit (plain c member))
  rw [written]
  refine canonical_unwords ?_ ?_ ?_
  · exact List.forall_mem_cons.mpr ⟨wordTurn, List.forall_mem_singleton.mpr wordFriday⟩
  · rw [← written]
    have small : "th friday".toList.all
        (fun c => c.toNat < 65 ∨ (91 ≤ c.toNat ∧ c.toNat < 123)) = true := by decide
    refine List.forall_mem_append.mpr ⟨fun c member => Or.inl ?_, fun c member => ?_⟩
    · have := digitRange c member
      omega
    · exact of_decide_eq_true (List.all_eq_true.mp small c member)
  · rw [← written]
    intro c letter member
    have letters : ['o', 'e', 'm'].all (fun c => 57 < c.toNat ∧ c ∉ "th friday".toList) = true := by
      decide
    obtain ⟨above, notInRest⟩ := of_decide_eq_true (List.all_eq_true.mp letters c letter)
    rcases List.mem_append.mp member with inNumeral | inRest
    · have := digitRange c inNumeral
      omega
    · exact notInRest inRest

end Phrase

end Recurrence
