import Recurrence.Proofs.Pattern.Preferred
import Recurrence.Proofs.Phrase.Standing
import Recurrence.Proofs.Text.Classes

namespace Recurrence.Phrase

/-! Lists of weekdays as they are written: names with links between them. A link that ends in "and"
or begins with it may touch a name, and then the name is not found again as a word of its own. -/

open Pattern

/-- What stands between two names of a list. -/
def linkPattern : PhrasePattern :=
  inOrder [blanks, anyOf [inOrder [",", blanks, "and"], "and", ","], blanks]

structure WeekdayList where
  first : List Char
  /-- The other names, each with the link in front of it. -/
  others : List (List Char × List Char)

namespace WeekdayList

def writeOthers (others : List (List Char × List Char)) : List Char :=
  others.flatMap fun pair => pair.1 ++ pair.2

@[simp] theorem writeOthers_cons (link name : List Char) (others : List (List Char × List Char)) :
    writeOthers ((link, name) :: others) = link ++ (name ++ writeOthers others) := by
  simp [writeOthers]

def text (list : WeekdayList) : List Char :=
  list.first ++ writeOthers list.others

def names (list : WeekdayList) : List (List Char) :=
  list.first :: list.others.map Prod.snd

/-- The names that no "and" touches, from a name on that may be touched already. -/
def standingFrom (touched : Bool) (name : List Char) :
    List (List Char × List Char) → List (List Char)
  | [] => if touched then [] else [name]
  | (link, next) :: others =>
      (if touched || link.head?.any Text.isWordChar then [] else [name]) ++
        standingFrom (link.getLast?.any Text.isWordChar) next others

def standing (list : WeekdayList) : List (List Char) :=
  standingFrom false list.first list.others

end WeekdayList

def IsLinked (pair : List Char × List Char) : Prop :=
  linkPattern.Matches pair.1 ∧ (Weekday.ofWord? pair.2).isSome

structure WeekdayList.IsProper (list : WeekdayList) : Prop where
  several : list.others ≠ []
  first : (Weekday.ofWord? list.first).isSome
  others : ∀ pair ∈ list.others, IsLinked pair

variable {text name link word : List Char} {others : List (List Char × List Char)}

/-! Written lists -/

theorem matches_weekdayWord : weekdayWord.Matches name ↔ (Weekday.ofWord? name).isSome := by
  have texts : weekdayWord = anyOf (weekdayTexts.map Pattern.word) := rfl
  rw [texts, matches_anyOf_words _ (by decide), List.mem_map, isSome_ofWord?_iff_mem_weekdayTexts]

theorem exists_others_of_pieces (pieces : List (List Char))
    (reads : ∀ piece ∈ pieces, ∃ link name, piece = link ++ name ∧ linkPattern.Matches link ∧
      (Weekday.ofWord? name).isSome) :
    ∃ others, WeekdayList.writeOthers others = pieces.flatten ∧ others.length = pieces.length ∧
      ∀ pair ∈ others, IsLinked pair := by
  induction pieces with
  | nil => exact ⟨[], rfl, rfl, List.forall_mem_nil _⟩
  | cons piece pieces ih =>
      obtain ⟨readsPiece, readsOthers⟩ := List.forall_mem_cons.mp reads
      obtain ⟨link, name, rfl, isLink, weekday⟩ := readsPiece
      obtain ⟨others, written, count, proper⟩ := ih readsOthers
      refine ⟨(link, name) :: others, ?_, congrArg (· + 1) count,
        List.forall_mem_cons.mpr ⟨⟨isLink, weekday⟩, proper⟩⟩
      simp only [WeekdayList.writeOthers, List.flatMap_cons, List.flatten_cons] at written ⊢
      rw [written]

/-- A text that the pattern for lists reads can be taken apart into names and links. -/
theorem exists_list_of_matches (reads : weekdayList.Matches text) :
    ∃ list : WeekdayList, list.IsProper ∧ list.text = text := by
  have piece {text : List Char} (reads : (inOrder [blanks, anyOf [inOrder [",", blanks, "and"],
      "and", ","], blanks, weekdayWord] : PhrasePattern).Matches text) :
      ∃ link name, text = link ++ name ∧ linkPattern.Matches link ∧
        (Weekday.ofWord? name).isSome := by
    obtain ⟨front, _, rfl, readsFront, mark, _, rfl, readsMark, back, name, rfl, readsBack,
      readsName⟩ := reads
    exact ⟨front ++ (mark ++ back), name, by simp, ⟨front, _, rfl, readsFront, mark, back, rfl,
      readsMark, readsBack⟩, matches_weekdayWord.mp readsName⟩
  obtain ⟨first, _, rfl, readsFirst, second, _, rfl, readsSecond, pieces, rfl, readsPieces⟩ := reads
  obtain ⟨others, written, count, proper⟩ := exists_others_of_pieces (second :: pieces)
    (List.forall_mem_cons.mpr
      ⟨piece readsSecond, fun text member => piece (readsPieces text member)⟩)
  refine ⟨⟨first, others⟩, ⟨?_, matches_weekdayWord.mp readsFirst, proper⟩, ?_⟩
  · exact List.ne_nil_of_length_pos (by simp only [count, List.length_cons]; omega)
  · rw [WeekdayList.text, written, List.flatten_cons]

/-! Links -/

theorem marks_of_sets {pattern : PhrasePattern} (marks : ∀ set ∈ pattern.sets,
    set = .blank ∨ set = .exactly ',') (reads : pattern.Matches text) :
    ∀ c ∈ text, Text.isWordChar c = false := by
  intro c member
  obtain ⟨set, listed, contained⟩ := exists_set_of_matches reads c member
  rcases marks set listed with rfl | rfl
  · exact Text.isWordChar_of_isBlank contained
  · rw [eq_of_beq contained]
    decide

/-- A link is made of blanks and commas, or it has an "and" between such. -/
theorem link_cases (isLink : linkPattern.Matches link) :
    link ≠ [] ∧ (∀ c ∈ link, Text.isWordChar c = false) ∨
      ∃ before behind, link = before ++ ("and".toList ++ behind) ∧
        (∀ c ∈ before, Text.isWordChar c = false) ∧
        ∀ c ∈ behind, Text.isWordChar c = false := by
  obtain ⟨before, _, rfl, readsBefore, mark, behind, rfl, readsMark, readsBehind⟩ := isLink
  have opens := marks_of_sets (by decide) readsBefore
  have closes := marks_of_sets (by decide) readsBehind
  rcases readsMark with ⟨comma, _, rfl, isComma, gap, joint, rfl, readsGap, isAnd⟩ | isAnd | isComma
  · rw [matches_literal.mp isAnd]
    refine Or.inr ⟨before ++ (comma ++ gap), behind, by simp, ?_, closes⟩
    simp only [List.forall_mem_append]
    exact ⟨opens, marks_of_sets (by decide) isComma, marks_of_sets (by decide) readsGap⟩
  · rw [matches_literal.mp isAnd]
    exact Or.inr ⟨before, behind, rfl, opens, closes⟩
  · have inside := marks_of_sets (by decide) isComma
    rw [matches_literal.mp isComma] at inside ⊢
    refine Or.inl ⟨by simp, ?_⟩
    simp only [List.forall_mem_append]
    exact ⟨opens, inside, closes⟩

/-! Lists of the same text -/

theorem chars_of_link (isLink : linkPattern.Matches link) :
    ∀ c ∈ link, Text.isWordChar c = false ∨ c ∈ "and".toList := by
  rcases link_cases isLink with ⟨_, marks⟩ | ⟨before, behind, rfl, opens, closes⟩
  · exact fun c member => Or.inl (marks c member)
  · simp only [List.forall_mem_append]
    exact ⟨fun c member => Or.inl (opens c member), fun c member => Or.inr member,
      fun c member => Or.inl (closes c member)⟩

theorem ne_nil_of_link (isLink : linkPattern.Matches link) : link ≠ [] := by
  rcases link_cases isLink with ⟨several, _⟩ | ⟨before, behind, rfl, _, _⟩
  · exact several
  · simp

theorem eq_nil_of_writeOthers (linked : ∀ pair ∈ others, IsLinked pair)
    (empty : WeekdayList.writeOthers others = []) : others = [] := by
  cases others with
  | nil => rfl
  | cons pair others =>
      rw [WeekdayList.writeOthers_cons, List.append_eq_nil_iff] at empty
      exact absurd empty.1 (ne_nil_of_link (linked pair List.mem_cons_self).1)

/-- What may stand behind a name: nothing, a mark, or an "and". -/
def EndsName (rest : List Char) : Prop :=
  ∀ c ∈ rest.head?, Text.isWordChar c = false ∨ c = 'a'

theorem endsName_link (isLink : linkPattern.Matches link) (rest : List Char) :
    EndsName (link ++ rest) := by
  rcases link_cases isLink with ⟨several, marks⟩ | ⟨before, behind, rfl, opens, closes⟩
  · obtain ⟨c, link, rfl⟩ := List.exists_cons_of_ne_nil several
    rintro _ ⟨⟩
    exact Or.inl (marks c List.mem_cons_self)
  · cases before with
    | nil =>
        rintro _ ⟨⟩
        exact Or.inr rfl
    | cons c before =>
        rintro _ ⟨⟩
        exact Or.inl (opens c List.mem_cons_self)

theorem endsName_writeOthers (linked : ∀ pair ∈ others, IsLinked pair) :
    EndsName (WeekdayList.writeOthers others) := by
  cases others with
  | nil => rintro _ ⟨⟩
  | cons pair others =>
      rw [WeekdayList.writeOthers_cons]
      exact endsName_link (linked pair List.mem_cons_self).1 _

theorem eq_nil_of_longer_name {more behind : List Char} (weekday : (Weekday.ofWord? name).isSome)
    (longer : (Weekday.ofWord? (name ++ more)).isSome) (ends : EndsName (more ++ behind)) :
    more = [] := by
  have apart : ∀ entry ∈ Weekday.lexicon, ∀ other ∈ Weekday.lexicon,
      ¬ entry.1.toList ++ ['a'] <+: other.1.toList := by decide +kernel
  cases more with
  | nil => rfl
  | cons c more =>
      rcases ends c rfl with mark | rfl
      · rw [(wordChars_of_weekday longer).2 c (by simp)] at mark
        cases mark
      · obtain ⟨entry, member, rfl⟩ := Weekday.isSome_ofWord?_iff.mp weekday
        obtain ⟨other, otherMember, same⟩ := Weekday.isSome_ofWord?_iff.mp longer
        exact absurd ⟨more, by simp [same]⟩ (apart entry member other otherMember)

theorem eq_of_names {other rest behind : List Char} (weekday : (Weekday.ofWord? name).isSome)
    (otherWeekday : (Weekday.ofWord? other).isSome) (same : name ++ rest = other ++ behind)
    (ends : EndsName rest) (otherEnds : EndsName behind) : name = other ∧ rest = behind := by
  rcases List.append_eq_append_iff.mp same with ⟨more, rfl, rfl⟩ | ⟨more, rfl, rfl⟩
  · simp [eq_nil_of_longer_name weekday otherWeekday ends]
  · simp [eq_nil_of_longer_name otherWeekday weekday otherEnds]

theorem eq_of_links {other next otherNext rest behind : List Char}
    (isLink : linkPattern.Matches link) (otherLink : linkPattern.Matches other)
    (weekday : (Weekday.ofWord? next).isSome) (otherWeekday : (Weekday.ofWord? otherNext).isSome)
    (same : link ++ (next ++ rest) = other ++ (otherNext ++ behind)) :
    link = other ∧ next ++ rest = otherNext ++ behind := by
  let inLinks (c : Char) : Bool := !Text.isWordChar c || "and".toList.contains c
  have heads : ∀ entry ∈ Weekday.lexicon, entry.1.toList.head?.any inLinks = false := by
    decide +kernel
  have cut {link next : List Char} (isLink : linkPattern.Matches link)
      (weekday : (Weekday.ofWord? next).isSome) (rest : List Char) :
      (link ++ (next ++ rest)).takeWhile inLinks = link := by
    have inside : ∀ c ∈ link, inLinks c = true := fun c member => by
      simpa [inLinks] using chars_of_link isLink c member
    have nonempty := (wordChars_of_weekday weekday).1
    obtain ⟨entry, member, rfl⟩ := Weekday.isSome_ofWord?_iff.mp weekday
    refine takeWhile_append_of_ends inside ?_
    rw [List.head?_append, List.head?_eq_some_head nonempty, Option.some_or,
      ← List.head?_eq_some_head nonempty]
    exact heads entry member
  have linkSame := cut isLink weekday rest
  rw [same, cut otherLink otherWeekday behind] at linkSame
  subst linkSame
  exact ⟨rfl, List.append_cancel_left same⟩

theorem eq_of_writeOthers_eq {furthers : List (List Char × List Char)}
    (linked : ∀ pair ∈ others, IsLinked pair) (otherLinked : ∀ pair ∈ furthers, IsLinked pair)
    (same : WeekdayList.writeOthers others = WeekdayList.writeOthers furthers) :
    others = furthers := by
  induction others generalizing furthers with
  | nil => exact (eq_nil_of_writeOthers otherLinked same.symm).symm
  | cons pair others ih =>
      cases furthers with
      | nil => exact eq_nil_of_writeOthers linked same
      | cons further furthers =>
          obtain ⟨link, next⟩ := pair
          obtain ⟨otherLink, otherNext⟩ := further
          obtain ⟨⟨isLink, weekday⟩, linkedOthers⟩ := List.forall_mem_cons.mp linked
          obtain ⟨⟨otherIsLink, otherWeekday⟩, otherLinkedOthers⟩ :=
            List.forall_mem_cons.mp otherLinked
          rw [WeekdayList.writeOthers_cons, WeekdayList.writeOthers_cons] at same
          obtain ⟨sameLink, onward⟩ := eq_of_links isLink otherIsLink weekday otherWeekday same
          obtain ⟨sameNext, sameOthers⟩ := eq_of_names weekday otherWeekday onward
            (endsName_writeOthers linkedOthers) (endsName_writeOthers otherLinkedOthers)
          dsimp only at sameLink sameNext
          rw [sameLink, sameNext, ih linkedOthers otherLinkedOthers sameOthers]

/-- A text is a list in one way at most. -/
theorem WeekdayList.IsProper.eq_of_text_eq {list other : WeekdayList} (proper : list.IsProper)
    (otherProper : other.IsProper) (same : list.text = other.text) : list = other := by
  obtain ⟨sameFirst, sameOthers⟩ := eq_of_names proper.first otherProper.first same
    (endsName_writeOthers proper.others) (endsName_writeOthers otherProper.others)
  have others := eq_of_writeOthers_eq proper.others otherProper.others sameOthers
  obtain ⟨first, _⟩ := list
  obtain ⟨_, _⟩ := other
  rw [WeekdayList.mk.injEq]
  exact ⟨sameFirst, others⟩

/-! Names that stand alone -/

theorem mem_wordRuns_behind_marks {marks : List Char}
    (noWord : ∀ c ∈ marks, Text.isWordChar c = false) (nonempty : word ≠ []) :
    word ∈ wordRuns (marks ++ text) ↔ word ∈ wordRuns text := by
  induction marks with
  | nil => rfl
  | cons c marks ih =>
      obtain ⟨mark, others⟩ := List.forall_mem_cons.mp noWord
      have cut := wordRuns_append_cons mark [] (marks ++ text)
      rw [List.nil_append, wordRuns_of_wordChars (List.forall_mem_nil _)] at cut
      rw [List.cons_append, cut, List.mem_append, List.mem_singleton, or_iff_right nonempty,
        ih others]

/-- The first run of a text, up to its first mark, and the runs behind the mark. -/
theorem mem_wordRuns_run_iff {run marks : List Char} (nonempty : word ≠ [])
    (wordChars : ∀ c ∈ run, Text.isWordChar c = true) (several : marks ≠ [])
    (noWord : ∀ c ∈ marks, Text.isWordChar c = false) :
    word ∈ wordRuns (run ++ (marks ++ text)) ↔ word = run ∨ word ∈ wordRuns text := by
  obtain ⟨c, marks, rfl⟩ := List.exists_cons_of_ne_nil several
  obtain ⟨mark, others⟩ := List.forall_mem_cons.mp noWord
  rw [List.cons_append, wordRuns_append_cons mark, wordRuns_of_wordChars wordChars,
    List.mem_append, List.mem_singleton, mem_wordRuns_behind_marks others nonempty]

/-- What touches a name from the front: nothing, or word characters with an "and" among them. -/
structure IsTouch (front : List Char) : Prop where
  wordChars : ∀ c ∈ front, Text.isWordChar c = true
  joined : front ≠ [] → "and".toList <:+: front

theorem ne_of_joined (weekday : (Weekday.ofWord? word).isSome) (joined : "and".toList <:+: text) :
    word ≠ text := by
  have apart : ∀ entry ∈ Weekday.lexicon, ¬ "and".toList <:+: entry.1.toList := by decide +kernel
  rintro rfl
  obtain ⟨entry, member, rfl⟩ := Weekday.isSome_ofWord?_iff.mp weekday
  exact apart entry member joined

theorem eq_touched_iff {front : List Char} (weekday : (Weekday.ofWord? word).isSome)
    (touch : IsTouch front) :
    word = front ++ name ↔ word ∈ if !front.isEmpty then [] else [name] := by
  cases front with
  | nil => simp
  | cons c front =>
      have joined := touch.joined (List.cons_ne_nil c front)
      exact iff_of_false (ne_of_joined weekday (joined.trans (List.infix_append_left ..)))
        List.not_mem_nil

theorem IsTouch.nil : IsTouch [] where
  wordChars := List.forall_mem_nil _
  joined nonempty := absurd rfl nonempty

theorem isTouch_append_and {front : List Char} (wordChars : ∀ c ∈ front, Text.isWordChar c = true) :
    IsTouch (front ++ "and".toList) where
  wordChars := List.forall_mem_append.mpr ⟨wordChars, List.all_eq_true.mp (by decide)⟩
  joined _ := ⟨front, [], by simp⟩

theorem head?_link {before : List Char} (opens : ∀ c ∈ before, Text.isWordChar c = false)
    (rest : List Char) :
    (before ++ ("and".toList ++ rest)).head?.any Text.isWordChar = before.isEmpty := by
  cases before with
  | nil => exact (by decide : Text.isWordChar 'a' = true)
  | cons c before => simpa using opens c List.mem_cons_self

theorem getLast?_link {behind : List Char} (closes : ∀ c ∈ behind, Text.isWordChar c = false)
    (before : List Char) :
    (before ++ ("and".toList ++ behind)).getLast?.any Text.isWordChar = behind.isEmpty := by
  rcases List.eq_nil_or_concat behind with rfl | ⟨others, c, rfl⟩
  · rw [List.append_nil, List.getLast?_append]
    exact (by decide : Text.isWordChar 'd' = true)
  · have last := closes c (by simp)
    rw [List.concat_eq_append, ← List.append_assoc, ← List.append_assoc, List.getLast?_concat,
      Option.any_some, last]
    simp

/-- A name in front of a link is a run unless something touches it on either side. -/
theorem exists_run_in_front {front before : List Char} (weekday : (Weekday.ofWord? word).isSome)
    (touch : IsTouch front) (named : (Weekday.ofWord? name).isSome)
    (opens : ∀ c ∈ before, Text.isWordChar c = false) (rest : List Char) :
    ∃ run, (∀ c ∈ run, Text.isWordChar c = true) ∧
      (word ∈ wordRuns (front ++ name ++ (before ++ rest)) ↔
        word ∈ (if !front.isEmpty || before.isEmpty then [] else [name]) ∨
          word ∈ wordRuns (run ++ rest)) := by
  have chars := List.forall_mem_append.mpr ⟨touch.wordChars, (wordChars_of_weekday named).2⟩
  cases before with
  | nil => exact ⟨front ++ name, chars, by simp⟩
  | cons c before =>
      refine ⟨[], List.forall_mem_nil _, ?_⟩
      rw [mem_wordRuns_run_iff (wordChars_of_weekday weekday).1 chars (List.cons_ne_nil c before)
        opens, eq_touched_iff weekday touch]
      simp

theorem exists_touch_behind {run behind : List Char} (weekday : (Weekday.ofWord? word).isSome)
    (runChars : ∀ c ∈ run, Text.isWordChar c = true)
    (closes : ∀ c ∈ behind, Text.isWordChar c = false) (rest : List Char) :
    ∃ front, IsTouch front ∧ (!front.isEmpty) = behind.isEmpty ∧
      (word ∈ wordRuns (run ++ ("and".toList ++ (behind ++ rest))) ↔
        word ∈ wordRuns (front ++ rest)) := by
  have touch := isTouch_append_and runChars
  rw [← List.append_assoc run]
  cases behind with
  | nil => exact ⟨run ++ "and".toList, touch, by simp, Iff.rfl⟩
  | cons c behind =>
      have joined := touch.joined (by simp)
      refine ⟨[], IsTouch.nil, rfl, ?_⟩
      rw [mem_wordRuns_run_iff (wordChars_of_weekday weekday).1 touch.wordChars
        (List.cons_ne_nil c behind) closes, or_iff_right (ne_of_joined weekday joined),
        List.nil_append]

/-- Among the words for weekdays, the runs of a list are its names that no "and" touches. -/
theorem mem_wordRuns_iff_mem_standingFrom {front : List Char}
    (weekday : (Weekday.ofWord? word).isSome) (touch : IsTouch front)
    (named : (Weekday.ofWord? name).isSome) (linked : ∀ pair ∈ others, IsLinked pair) :
    word ∈ wordRuns (front ++ (name ++ WeekdayList.writeOthers others)) ↔
      word ∈ WeekdayList.standingFrom (!front.isEmpty) name others := by
  have nonempty := (wordChars_of_weekday weekday).1
  induction others generalizing front name with
  | nil =>
      have chars := List.forall_mem_append.mpr ⟨touch.wordChars, (wordChars_of_weekday named).2⟩
      rw [WeekdayList.writeOthers, List.flatMap_nil, List.append_nil, wordRuns_of_wordChars chars,
        List.mem_singleton, eq_touched_iff weekday touch, WeekdayList.standingFrom]
  | cons pair others ih =>
      obtain ⟨link, next⟩ := pair
      obtain ⟨⟨isLink, namedNext⟩, linkedOthers⟩ := List.forall_mem_cons.mp linked
      rw [WeekdayList.writeOthers_cons, WeekdayList.standingFrom, List.mem_append,
        ← List.append_assoc]
      dsimp only at isLink
      rcases link_cases isLink with ⟨several, marks⟩ | ⟨before, behind, rfl, opens, closes⟩
      · have chars := List.forall_mem_append.mpr ⟨touch.wordChars, (wordChars_of_weekday named).2⟩
        have noHead : link.head?.any Text.isWordChar = false := by
          obtain ⟨c, link, rfl⟩ := List.exists_cons_of_ne_nil several
          exact marks c List.mem_cons_self
        have noLast : link.getLast?.any Text.isWordChar = false := by
          rw [List.getLast?_eq_some_getLast several]
          exact marks _ (List.getLast_mem several)
        rw [noHead, noLast, Bool.or_false, ← eq_touched_iff weekday touch,
          mem_wordRuns_run_iff nonempty chars several marks]
        exact or_congr_right (ih IsTouch.nil namedNext linkedOthers)
      · obtain ⟨run, runChars, inFront⟩ := exists_run_in_front weekday touch named opens
          ("and".toList ++ (behind ++ (next ++ WeekdayList.writeOthers others)))
        obtain ⟨further, touches, touched, onward⟩ := exists_touch_behind weekday runChars closes
          (next ++ WeekdayList.writeOthers others)
        rw [head?_link opens, getLast?_link closes, List.append_assoc before,
          List.append_assoc "and".toList, inFront, onward, ← touched]
        exact or_congr_right (ih touches namedNext linkedOthers)

theorem WeekdayList.IsProper.mem_wordRuns_iff {list : WeekdayList} (proper : list.IsProper)
    (weekday : (Weekday.ofWord? word).isSome) : word ∈ wordRuns list.text ↔ word ∈ list.standing :=
  mem_wordRuns_iff_mem_standingFrom weekday IsTouch.nil proper.first proper.others

end Recurrence.Phrase
