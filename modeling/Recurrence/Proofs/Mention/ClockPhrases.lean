import Recurrence.Mention.Clock
import Recurrence.Proofs.Pattern.Leftmost
import Recurrence.Proofs.Pattern.Splits
import Recurrence.Proofs.Phrase.WrittenTimes

namespace Recurrence.Mention

/-! Clock phrases. Such a phrase opens with a word, an hour and perhaps a minute, and it may end in the
sign of a half of the day. The sign is taken wherever it can be; only where it cannot be, the same
opening is read alone. So at each place at most one phrase is read, and no phrase begins inside
another one. -/

open Pattern Phrase

/-- A small letter as it is listed, or its capital. -/
def InEitherCase (letter c : Char) : Prop :=
  c = letter ∨ c = letter.toUpper

instance (letter c : Char) : Decidable (InEitherCase letter c) :=
  inferInstanceAs (Decidable (_ ∨ _))

/-! The parts of a phrase -/

structure PhraseOpening where
  lead : List Char
  gap : List Char
  hour : List Char
  minute : Option (List Char)
deriving DecidableEq, Repr

namespace PhraseOpening

def text (opening : PhraseOpening) : List Char :=
  opening.lead ++ (opening.gap ++ (opening.hour ++ (opening.minute.map (':' :: ·)).getD []))

structure IsProper (opening : PhraseOpening) : Prop where
  lead : ∃ word ∈ ["at", "around", "about"], List.Forall₂ InEitherCase word.toList opening.lead
  gap : opening.gap ≠ [] ∧ ∀ c ∈ opening.gap, Text.isBlank c = true
  hour : IsNumeral opening.hour ∧ opening.hour.length ≤ 2
  minute : ∀ digits ∈ opening.minute, IsNumeral digits ∧ digits.length = 2

end PhraseOpening

/-- The letters that name a half of the day, with the points behind each of them. -/
structure HalfSign where
  gap : List Char
  letter : Char
  pointed : Bool
  em : Char
  ended : Bool
deriving DecidableEq, Repr

namespace HalfSign

def text (sign : HalfSign) : List Char :=
  sign.gap ++ (sign.letter :: ((if sign.pointed then ['.'] else []) ++
    (sign.em :: (if sign.ended then ['.'] else []))))

structure IsProper (sign : HalfSign) : Prop where
  gap : ∀ c ∈ sign.gap, Text.isBlank c = true
  letter : InEitherCase 'a' sign.letter ∨ InEitherCase 'p' sign.letter
  em : InEitherCase 'm' sign.em

def half (sign : HalfSign) : Phrase.Half :=
  if InEitherCase 'p' sign.letter then .pm else .am

end HalfSign

structure ClockPhrase where
  opening : PhraseOpening
  sign : Option HalfSign
deriving DecidableEq, Repr

namespace ClockPhrase

def text (phrase : ClockPhrase) : List Char :=
  phrase.opening.text ++ (phrase.sign.map HalfSign.text).getD []

/-- The time that is meant, if the numbers are those of a clock of twelve or, without a half, of
twenty-four hours. -/
def clock? (phrase : ClockPhrase) : Option Clock := do
  let hour ← WrittenTime.hour? phrase.opening.hour (phrase.sign.map HalfSign.half)
  let minute ← (phrase.opening.minute.map (WrittenTime.numberIn? 0 59)).getD (some 0)
  return ⟨hour, minute⟩

/-- Neither a word nor a number goes on behind a phrase, nor a time. -/
structure StandsAt (phrase : ClockPhrase) (place : Cursor) (behind : List Char) : Prop where
  opening : phrase.opening.IsProper
  sign : ∀ sign ∈ phrase.sign, sign.IsProper
  standing : place.rest = phrase.text ++ behind
  opens : place.before.any Text.isWordChar = false
  closes : ∀ c ∈ behind.head?, Text.isWordChar c = false ∧ c ≠ ':' ∧ c ≠ '.'

/-- A sign is left out only where none can be taken. -/
def IsReadAt (phrase : ClockPhrase) (place : Cursor) : Prop :=
  (∃ behind, phrase.StandsAt place behind) ∧
    (phrase.sign = none → ∀ other behind, StandsAt other place behind → other.sign = none)

end ClockPhrase

/-! The pattern, cut where the sign begins -/

def openingPattern : Pattern ClockPart :=
  inOrder [
    anyOf [wordEitherCase "at", wordEitherCase "around", wordEitherCase "about"],
    oneOrMore (.one .blank),
    capture .hour shortNumber,
    optional (.seq ":" (capture .minute (.seq digit digit)))]

def signPattern : Pattern ClockPart :=
  inOrder [blanks, capture .half (.one (.union (.eitherCase 'a') (.eitherCase 'p'))),
    optional ".", wordEitherCase "m", optional "."]

def endMark : CharSet :=
  .union .wordChar (.union (.exactly ':') (.exactly '.'))

theorem clockPhrase_ways :
    clockPhrase.ways =
      (seq wordEdge (seq (seq openingPattern (optional signPattern)) (notAhead endMark))).ways := by
  have joined : ∀ first second third fourth fifth last : Pattern ClockPart,
      (inOrder [first, second, third, fourth, fifth, last]).ways =
        (seq (seq (inOrder [first, second, third, fourth]) fifth) last).ways := by
    intro first second third fourth fifth last
    change (inOrder ([first, second, third, fourth] ++ [fifth, last])).ways = _
    rw [ways_seq_assoc, ways_inOrder_append (List.cons_ne_nil _ _) (List.cons_ne_nil _ _)]
    rfl
  exact ways_seq_congr (joined _ _ _ _ _ _)

theorem matches_wordEitherCase {word : String} {text : List Char} :
    (wordEitherCase word : Pattern ClockPart).Matches text ↔
      List.Forall₂ InEitherCase word.toList text := by
  unfold wordEitherCase
  induction word.toList generalizing text with
  | nil => rw [List.foldr_nil, List.forall₂_nil_left_iff]; rfl
  | cons letter others ih =>
      rw [List.foldr_cons]
      constructor
      · intro reads
        obtain ⟨front, back, rfl, ⟨c, rfl, contained⟩, readsOthers⟩ := reads
        exact .cons (by simpa [CharSet.contains, InEitherCase] using contained) (ih.mp readsOthers)
      · intro written
        cases written with
        | @cons _ c _ back same others =>
          exact ⟨[c], back, rfl, ⟨c, rfl, by simpa [CharSet.contains, InEitherCase] using same⟩,
            ih.mpr others⟩

theorem matches_lead {text : List Char} :
    (anyOf [wordEitherCase "at", wordEitherCase "around", wordEitherCase "about"] :
        Pattern ClockPart).Matches text ↔
      ∃ word ∈ ["at", "around", "about"], List.Forall₂ InEitherCase word.toList text := by
  rw [matches_anyOf (List.cons_ne_nil _ _)]
  simp only [List.mem_cons, List.not_mem_nil, or_false, exists_eq_or_imp, exists_eq_left,
    matches_wordEitherCase]

theorem matches_oneOrMoreBlanks {text : List Char} :
    (oneOrMore (.one .blank) : Pattern ClockPart).Matches text ↔
      text ≠ [] ∧ ∀ c ∈ text, Text.isBlank c = true := by
  constructor
  · intro reads
    obtain ⟨front, back, rfl, ⟨c, rfl, blank⟩, readsOthers⟩ := reads
    exact ⟨List.cons_ne_nil _ _, List.forall_mem_cons.mpr ⟨blank, isBlank_of_blanks readsOthers⟩⟩
  · intro gap
    obtain ⟨c, rest, rfl⟩ := List.exists_cons_of_ne_nil gap.1
    obtain ⟨blank, others⟩ := List.forall_mem_cons.mp gap.2
    exact ⟨[c], rest, rfl, ⟨c, rfl, blank⟩, blanks_matches others⟩

theorem matches_optionalPoint {text : List Char} :
    (optional "." : Pattern ClockPart).Matches text ↔
      ∃ pointed : Bool, text = if pointed then ['.'] else [] := by
  constructor
  · intro reads
    rcases reads with point | none
    · exact ⟨true, matches_literal.mp point⟩
    · exact ⟨false, none⟩
  · intro written
    obtain ⟨pointed, rfl⟩ := written
    cases pointed with
    | true => exact Or.inl (matches_literal.mpr rfl)
    | false => exact Or.inr rfl

theorem matches_em {text : List Char} :
    (wordEitherCase "m" : Pattern ClockPart).Matches text ↔ ∃ c, text = [c] ∧ InEitherCase 'm' c := by
  rw [matches_wordEitherCase, show "m".toList = ['m'] from rfl, List.forall₂_cons_left_iff]
  simp only [List.forall₂_nil_left_iff]
  constructor
  · intro written
    obtain ⟨c, rest, same, rfl, rfl⟩ := written
    exact ⟨c, rfl, same⟩
  · intro written
    obtain ⟨c, rfl, same⟩ := written
    exact ⟨c, [], same, rfl, rfl⟩

theorem matches_letter {text : List Char} :
    (one (.union (.eitherCase 'a') (.eitherCase 'p')) : Pattern ClockPart).Matches text ↔
      ∃ c, text = [c] ∧ (InEitherCase 'a' c ∨ InEitherCase 'p' c) := by
  refine exists_congr fun c => and_congr_right fun _ => ?_
  simp [CharSet.contains, InEitherCase]

/-! What is read -/

variable {place : Cursor} {way : Way ClockPart}

theorem opening_way (member : way ∈ openingPattern.ways place) :
    ∃ opening : PhraseOpening, opening.IsProper ∧ place.rest = opening.text ++ way.2.rest ∧
      way.1.text? .hour = some opening.hour ∧ way.1.text? .minute = opening.minute := by
  simp only [openingPattern, inOrder, mem_ways_seq] at member
  obtain ⟨lead, inLead, _, ⟨gap, inGap, _, ⟨hour, inHour, minute, inMinute, rfl⟩, rfl⟩, rfl⟩ := member
  obtain ⟨leadText, leadCut, readsLead⟩ := matches_of_mem_ways inLead
  obtain ⟨gapText, gapCut, readsGap⟩ := matches_of_mem_ways inGap
  obtain ⟨hourText, hourCut, readsHour, hourCaptured, hourRead⟩ := capture_way rfl inHour
  have silent : lead.1 ++ (gap.1 ++ (hour.1 ++ minute.1)) = (.hour, gap.2, hour.2) :: minute.1 := by
    rw [captures_eq_nil rfl inLead, captures_eq_nil rfl inGap, hourCaptured]
    rfl
  have hourTold : Captures.text? ((.hour, gap.2, hour.2) :: minute.1) .hour = some hourText := by
    rw [text?_cons, if_pos rfl, hourRead]
  have minuteTold : ∃ digits : Option (List Char),
      (∀ text ∈ digits, IsNumeral text ∧ text.length = 2) ∧
        hour.2.rest = (digits.map (':' :: ·)).getD [] ++ minute.2.rest ∧
          minute.1.text? .minute = digits := by
    rcases mem_ways_optional.mp inMinute with written | rfl
    · obtain ⟨colon, inColon, inner, inDigits, rfl⟩ := mem_ways_seq.mp written
      obtain ⟨colonText, colonCut, readsColon⟩ := matches_of_mem_ways inColon
      obtain ⟨digits, digitsCut, readsDigits, captured, digitsRead⟩ := capture_way rfl inDigits
      refine ⟨some digits, fun text same => ?_, ?_, ?_⟩
      · cases same
        exact isNumeral_of_twoDigits readsDigits
      · rw [colonCut, matches_literal.mp readsColon, digitsCut]
        rfl
      · rw [captures_eq_nil rfl inColon, captured, List.nil_append, text?_cons, if_pos rfl, digitsRead]
    · exact ⟨none, fun text absent => absurd absent (Option.not_mem_none text), rfl, rfl⟩
  obtain ⟨digits, isMinute, minuteCut, told⟩ := minuteTold
  refine ⟨⟨leadText, gapText, hourText, digits⟩,
    ⟨matches_lead.mp readsLead, matches_oneOrMoreBlanks.mp readsGap, isNumeral_of_shortNumber readsHour,
      isMinute⟩, ?_, ?_, ?_⟩
  · dsimp only [PhraseOpening.text]
    rw [leadCut, gapCut, hourCut, minuteCut]
    simp only [List.append_assoc]
  · exact silent ▸ hourTold
  · dsimp only
    rw [silent, text?_cons, if_neg (by decide), told]

theorem sign_way (member : way ∈ signPattern.ways place) :
    ∃ sign : HalfSign, sign.IsProper ∧ place.rest = sign.text ++ way.2.rest ∧
      way.1.text? .half = some [sign.letter] := by
  simp only [signPattern, inOrder, mem_ways_seq] at member
  obtain ⟨gap, inGap, _, ⟨letter, inLetter, _, ⟨point, inPoint, _, ⟨em, inEm, last, inLast, rfl⟩,
    rfl⟩, rfl⟩, rfl⟩ := member
  obtain ⟨gapText, gapCut, readsGap⟩ := matches_of_mem_ways inGap
  obtain ⟨letterText, letterCut, readsLetter, captured, letterRead⟩ := capture_way rfl inLetter
  obtain ⟨pointText, pointCut, readsPoint⟩ := matches_of_mem_ways inPoint
  obtain ⟨emText, emCut, readsEm⟩ := matches_of_mem_ways inEm
  obtain ⟨lastText, lastCut, readsLast⟩ := matches_of_mem_ways inLast
  obtain ⟨c, rfl, isLetter⟩ := matches_letter.mp readsLetter
  obtain ⟨pointed, rfl⟩ := matches_optionalPoint.mp readsPoint
  obtain ⟨m, rfl, isEm⟩ := matches_em.mp readsEm
  obtain ⟨ended, rfl⟩ := matches_optionalPoint.mp readsLast
  refine ⟨⟨gapText, c, pointed, m, ended⟩, ⟨isBlank_of_blanks readsGap, isLetter, isEm⟩, ?_, ?_⟩
  · rw [gapCut, letterCut, pointCut, emCut, lastCut]
    simp [HalfSign.text]
  · dsimp only
    rw [captures_eq_nil rfl inGap, captured, List.nil_append, List.singleton_append, text?_cons,
      if_pos rfl, letterRead]

/-! What can be read -/

theorem PhraseOpening.IsProper.matches {opening : PhraseOpening} (proper : opening.IsProper) :
    openingPattern.Matches opening.text := by
  refine ⟨opening.lead, _, rfl, matches_lead.mpr proper.lead, opening.gap, _, rfl,
    matches_oneOrMoreBlanks.mpr proper.gap, opening.hour, _, rfl,
    shortNumber_matches proper.hour.1 proper.hour.2, ?_⟩
  cases minute : opening.minute with
  | none => exact Or.inr rfl
  | some digits =>
      obtain ⟨isMinute, two⟩ := proper.minute digits minute
      exact Or.inl ⟨[':'], digits, rfl, matches_literal.mpr rfl, twoDigits_matches isMinute two⟩

theorem HalfSign.IsProper.matches {sign : HalfSign} (proper : sign.IsProper) :
    signPattern.Matches sign.text :=
  ⟨sign.gap, _, rfl, blanks_matches proper.gap, [sign.letter], _, rfl,
    matches_letter.mpr ⟨_, rfl, proper.letter⟩, _, _, rfl,
    matches_optionalPoint.mpr ⟨sign.pointed, rfl⟩, [sign.em], _, rfl,
    matches_em.mpr ⟨_, rfl, proper.em⟩, matches_optionalPoint.mpr ⟨sign.ended, rfl⟩⟩

/-! Phrases are told from their texts -/

theorem wordChars_of_letters {word text : List Char} (letters : List.Forall₂ InEitherCase word text)
    (wordChars : ∀ c ∈ word, Text.isWordChar c = true ∧ Text.isWordChar c.toUpper = true) :
    ∀ c ∈ text, Text.isWordChar c = true := by
  induction letters with
  | nil => exact List.forall_mem_nil _
  | cons same _ ih =>
      obtain ⟨first, others⟩ := List.forall_mem_cons.mp wordChars
      refine List.forall_mem_cons.mpr ⟨?_, ih others⟩
      rcases same with rfl | rfl
      · exact first.1
      · exact first.2

theorem wordChars_of_lead {lead : List Char}
    (isLead : ∃ word ∈ ["at", "around", "about"], List.Forall₂ InEitherCase word.toList lead) :
    lead ≠ [] ∧ ∀ c ∈ lead, Text.isWordChar c = true := by
  obtain ⟨word, listed, letters⟩ := isLead
  have known : ∀ word ∈ ["at", "around", "about"], word.toList ≠ [] ∧
      (word.toList.all fun letter =>
        Text.isWordChar letter && Text.isWordChar letter.toUpper) = true := by decide
  obtain ⟨nonempty, wordChars⟩ := known word listed
  refine ⟨fun empty => nonempty (List.forall₂_nil_right_iff.mp (empty ▸ letters)),
    wordChars_of_letters letters fun letter member => ?_⟩
  simpa using List.all_eq_true.mp wordChars letter member

/-- What a sign begins with, its gap or its letter, continues no number. -/
theorem HalfSign.IsProper.head {sign : HalfSign} (proper : sign.IsProper) (behind : List Char) :
    ∀ c ∈ (sign.text ++ behind).head?, Text.isDigit c = false ∧ c ≠ ':' := by
  intro c first
  unfold text at first
  cases gap : sign.gap with
  | nil =>
      rw [gap] at first
      cases first
      rcases proper.letter with (same | same) | (same | same) <;> rw [same] <;> decide
  | cons d rest =>
      rw [gap] at first
      cases first
      have blank : Text.isBlank c = true := proper.gap c (gap ▸ List.mem_cons_self)
      constructor
      · refine Bool.eq_false_iff.mpr fun digit => ?_
        rw [Text.isBlank_of_isDigit digit] at blank
        cases blank
      · rintro rfl
        exact absurd blank (by decide)

theorem isDigit_of_not_wordChar {c : Char} (mark : Text.isWordChar c = false) :
    Text.isDigit c = false := by
  refine Bool.eq_false_iff.mpr fun digit => ?_
  simp [Text.isWordChar, Text.isDigitSign, digit] at mark

/-- Behind the numbers of a phrase there is neither a digit nor a colon. -/
theorem ClockPhrase.StandsAt.behind_opening {phrase : ClockPhrase} {behind : List Char}
    (stands : phrase.StandsAt place behind) :
    ∀ c ∈ ((phrase.sign.map HalfSign.text).getD [] ++ behind).head?,
      Text.isDigit c = false ∧ c ≠ ':' := by
  cases taken : phrase.sign with
  | none =>
      intro c first
      obtain ⟨mark, noColon, _⟩ := stands.closes c first
      exact ⟨isDigit_of_not_wordChar mark, noColon⟩
  | some sign => exact (stands.sign sign taken).head behind

theorem any_head? {text : List Char} {inside : Char → Bool} (ends : ∀ c ∈ text.head?, inside c = false) :
    text.head?.any inside = false := by
  cases text with
  | nil => rfl
  | cons c rest => exact ends c rfl

theorem PhraseOpening.eq_of_text {opening other : PhraseOpening} {rest behind : List Char}
    (proper : opening.IsProper) (otherProper : other.IsProper)
    (ends : ∀ c ∈ rest.head?, Text.isDigit c = false ∧ c ≠ ':')
    (otherEnds : ∀ c ∈ behind.head?, Text.isDigit c = false ∧ c ≠ ':')
    (same : opening.text ++ rest = other.text ++ behind) : opening = other ∧ rest = behind := by
  obtain ⟨lead, gap, hour, minute⟩ := opening
  obtain ⟨otherLead, otherGap, otherHour, otherMinute⟩ := other
  obtain ⟨isLead, isGap, isHour, isMinute⟩ := proper
  obtain ⟨otherIsLead, otherIsGap, otherIsHour, otherIsMinute⟩ := otherProper
  have gapEnds {gap behind : List Char} (isGap : gap ≠ [] ∧ ∀ c ∈ gap, Text.isBlank c = true) :
      (gap ++ behind).head?.any Text.isWordChar = false :=
    head?_any_append (fun c member => Text.isWordChar_of_isBlank (isGap.2 c member))
      fun empty => absurd empty isGap.1
  have hourEnds {hour behind : List Char} (isHour : IsNumeral hour) :
      (hour ++ behind).head?.any Text.isBlank = false :=
    head?_any_append (fun c member => Text.isBlank_of_isDigit (isHour.2 c member))
      fun empty => absurd empty isHour.1
  have minuteEnds {minute : Option (List Char)} {rest : List Char}
      (ends : ∀ c ∈ rest.head?, Text.isDigit c = false ∧ c ≠ ':') :
      ((minute.map (':' :: ·)).getD [] ++ rest).head?.any Text.isDigit = false := by
    cases minute with
    | none => exact any_head? fun c first => (ends c first).1
    | some digits => rfl
  simp only [text, List.append_assoc] at same
  obtain rfl := eq_of_runs same (wordChars_of_lead isLead).2 (wordChars_of_lead otherIsLead).2
    (gapEnds isGap) (gapEnds otherIsGap)
  have behindLead := List.append_cancel_left same
  obtain rfl := eq_of_runs behindLead isGap.2 otherIsGap.2 (hourEnds isHour.1) (hourEnds otherIsHour.1)
  have behindGap := List.append_cancel_left behindLead
  obtain rfl := eq_of_runs behindGap isHour.1.2 otherIsHour.1.2 (minuteEnds ends) (minuteEnds otherEnds)
  have behindHour := List.append_cancel_left behindGap
  cases minute with
  | none =>
      cases otherMinute with
      | none => exact ⟨rfl, behindHour⟩
      | some digits =>
          have colon : rest.head? = some ':' := congrArg List.head? behindHour
          exact absurd rfl (ends ':' colon).2
  | some digits =>
      cases otherMinute with
      | none =>
          have colon : behind.head? = some ':' := (congrArg List.head? behindHour).symm
          exact absurd rfl (otherEnds ':' colon).2
      | some otherDigits =>
          obtain ⟨rfl, rfl⟩ := List.append_inj (List.cons.inj behindHour).2
            ((isMinute digits rfl).2.trans (otherIsMinute otherDigits rfl).2.symm)
          exact ⟨rfl, rfl⟩

theorem HalfSign.eq_of_text {sign other : HalfSign} {rest behind : List Char}
    (proper : sign.IsProper) (otherProper : other.IsProper) (ends : ∀ c ∈ rest.head?, c ≠ '.')
    (otherEnds : ∀ c ∈ behind.head?, c ≠ '.') (same : sign.text ++ rest = other.text ++ behind) :
    sign = other := by
  obtain ⟨gap, letter, pointed, em, ended⟩ := sign
  obtain ⟨otherGap, otherLetter, otherPointed, otherEm, otherEnded⟩ := other
  obtain ⟨isGap, isLetter, isEm⟩ := proper
  obtain ⟨otherIsGap, otherIsLetter, otherIsEm⟩ := otherProper
  have solid {c : Char} (isLetter : InEitherCase 'a' c ∨ InEitherCase 'p' c) :
      Text.isBlank c = false := by
    rcases isLetter with (same | same) | (same | same) <;> rw [same] <;> decide
  have emPoint {c : Char} (isEm : InEitherCase 'm' c) : c ≠ '.' := by
    rcases isEm with same | same <;> rw [same] <;> decide
  simp only [text, List.append_assoc, List.cons_append] at same
  obtain rfl := eq_of_runs same isGap otherIsGap (solid isLetter) (solid otherIsLetter)
  obtain ⟨rfl, behindLetter⟩ := List.cons.inj (List.append_cancel_left same)
  -- A point is taken exactly where one stands, since neither the m nor what follows is one.
  have taken {pointed otherPointed : Bool} {text other : List Char} (ends : ∀ c ∈ text.head?, c ≠ '.')
      (otherEnds : ∀ c ∈ other.head?, c ≠ '.')
      (same : (if pointed then ['.'] else []) ++ text = (if otherPointed then ['.'] else []) ++ other) :
      pointed = otherPointed ∧ text = other := by
    cases pointed <;> cases otherPointed
    · exact ⟨rfl, same⟩
    · exact absurd rfl (ends '.' (congrArg List.head? same))
    · exact absurd rfl (otherEnds '.' (congrArg List.head? same).symm)
    · exact ⟨rfl, (List.cons.inj same).2⟩
  obtain ⟨rfl, behindPoint⟩ := taken (fun c first => by cases first; exact emPoint isEm)
    (fun c first => by cases first; exact emPoint otherIsEm) behindLetter
  obtain ⟨rfl, behindEm⟩ := List.cons.inj behindPoint
  obtain ⟨rfl, _⟩ := taken ends otherEnds behindEm
  rfl

namespace ClockPhrase

variable {phrase other : ClockPhrase} {behind rest : List Char}

theorem text_append (phrase : ClockPhrase) (behind : List Char) :
    phrase.text ++ behind =
      phrase.opening.text ++ ((phrase.sign.map HalfSign.text).getD [] ++ behind) := by
  rw [text, List.append_assoc]

/-- All phrases at a place have the same opening. -/
theorem StandsAt.opening_eq (stands : phrase.StandsAt place behind)
    (alsoStands : other.StandsAt place rest) :
    phrase.opening = other.opening ∧
      (phrase.sign.map HalfSign.text).getD [] ++ behind =
        (other.sign.map HalfSign.text).getD [] ++ rest := by
  have same := stands.standing.symm.trans alsoStands.standing
  rw [text_append, text_append] at same
  exact PhraseOpening.eq_of_text stands.opening alsoStands.opening stands.behind_opening
    alsoStands.behind_opening same

theorem IsReadAt.unique (read : phrase.IsReadAt place) (alsoRead : other.IsReadAt place) :
    phrase = other := by
  obtain ⟨⟨behind, stands⟩, signless⟩ := read
  obtain ⟨⟨rest, alsoStands⟩, alsoSignless⟩ := alsoRead
  obtain ⟨sameOpening, same⟩ := stands.opening_eq alsoStands
  obtain ⟨opening, sign⟩ := phrase
  obtain ⟨otherOpening, otherSign⟩ := other
  cases sameOpening
  cases sign with
  | none => exact congrArg (mk opening) (signless rfl _ _ alsoStands).symm
  | some sign =>
      cases otherSign with
      | none => cases alsoSignless rfl _ _ stands
      | some otherSign =>
          rw [HalfSign.eq_of_text (stands.sign sign rfl) (alsoStands.sign otherSign rfl)
            (fun c first => (stands.closes c first).2.2)
            (fun c first => (alsoStands.closes c first).2.2) same]

end ClockPhrase

/-! The reading at a place -/

theorem atWordEdge_iff {opening : PhraseOpening} (proper : opening.IsProper) {behind : List Char}
    (standing : place.rest = opening.text ++ behind) :
    place.atWordEdge = true ↔ place.before.any Text.isWordChar = false := by
  obtain ⟨nonempty, wordChars⟩ := wordChars_of_lead proper.lead
  obtain ⟨c, lead, isLead⟩ := List.exists_cons_of_ne_nil nonempty
  have first : place.rest.head? = some c := by
    rw [standing, PhraseOpening.text, isLead]
    rfl
  have wordChar : Text.isWordChar c = true := wordChars c (isLead ▸ List.mem_cons_self)
  rw [Cursor.atWordEdge, first, Option.any_some, wordChar]
  cases place.before.any Text.isWordChar <;> decide

theorem endMark_iff {behind : List Char} :
    behind.head?.any endMark.contains = false ↔
      ∀ c ∈ behind.head?, Text.isWordChar c = false ∧ c ≠ ':' ∧ c ≠ '.' := by
  cases behind with
  | nil => simp
  | cons c rest => simp [endMark, CharSet.contains]

/-- The parts that a way captures are those of a phrase. -/
structure ReadsPhrase (way : Way ClockPart) (phrase : ClockPhrase) : Prop where
  hour : way.1.text? .hour = some phrase.opening.hour
  minute : way.1.text? .minute = phrase.opening.minute
  half : way.1.text? .half = phrase.sign.map ([·.letter])

theorem HalfSign.hour_eq {face : Nat} (least : 1 ≤ face) (greatest : face ≤ 12) (sign : HalfSign) :
    (face % 12 + if [sign.letter] = ['p'] ∨ [sign.letter] = ['P'] then 12 else 0) =
      sign.half.hour face := by
  have letters : [sign.letter] = ['p'] ∨ [sign.letter] = ['P'] ↔ InEitherCase 'p' sign.letter := by
    simp [InEitherCase]
  simp only [letters, half]
  split
  · exact Phrase.Half.hour_eq least greatest .pm
  · exact Phrase.Half.hour_eq least greatest .am

theorem ReadsPhrase.clock?_eq {phrase : ClockPhrase} (reads : ReadsPhrase way phrase) :
    clockOfPhrase? way.1 = phrase.clock? := by
  have minuteTold : (phrase.opening.minute.map (WrittenTime.numberIn? 0 59)).getD (some 0) =
      if 59 < Text.digitsValue (way.1.text .minute) then none
      else some (Text.digitsValue (way.1.text .minute)) := by
    rw [Captures.text, reads.minute]
    cases phrase.opening.minute with
    | none => rfl
    | some digits =>
        simp only [Option.map_some, Option.getD_some, WrittenTime.numberIn?, Nat.zero_le, true_and]
        split <;> split <;> first | rfl | omega
  have hourIs : way.1.text .hour = phrase.opening.hour := by
    rw [Captures.text, reads.hour, Option.getD_some]
  simp only [clockOfPhrase?, ClockPhrase.clock?, minuteTold, hourIs, reads.half]
  by_cases late : 59 < Text.digitsValue (way.1.text .minute)
  · simp [late]
  · rw [if_neg late, if_neg late]
    cases phrase.sign with
    | none =>
        simp only [Option.map_none, WrittenTime.hour?, WrittenTime.numberIn?, Nat.zero_le, true_and]
        split <;> rfl
    | some sign =>
        simp only [Option.map_some, WrittenTime.hour?, WrittenTime.numberIn?]
        split
        · rename_i face
          rw [HalfSign.hour_eq face.1 face.2]
          rfl
        · rfl

/-- Whether a phrase may end at a place. -/
def mayEnd (place : Cursor) : Bool :=
  !place.rest.head?.any endMark.contains

theorem ways_guarded (pattern : Pattern ClockPart) (place : Cursor) :
    (seq pattern (notAhead endMark)).ways place = (pattern.ways place).filter (mayEnd ·.2) := by
  rw [ways]
  induction pattern.ways place with
  | nil => rfl
  | cons way others ih =>
      rw [List.flatMap_cons, List.filter_cons, ih]
      cases ahead : way.2.rest.head?.any endMark.contains <;> simp [ways, mayEnd, ahead]

theorem ways_behindEdge (pattern : Pattern ClockPart) (place : Cursor) :
    (seq wordEdge pattern).ways place = if place.atWordEdge then pattern.ways place else [] := by
  rw [ways, ways]
  split <;> simp

/-- The first way of reading a phrase that may end where it does. -/
theorem readAt?_eq (place : Cursor) :
    clockPhrase.readAt? place =
      if place.atWordEdge then
        (((seq openingPattern (optional signPattern)).ways place).find? (mayEnd ·.2)).map
          fun way => ⟨place, way.1, way.2⟩
      else none := by
  rw [readAt?, clockPhrase_ways, ways_behindEdge, ways_guarded]
  split
  · rw [List.head?_filter]
  · rfl

theorem ReadsPhrase.of_parts {front back : Way ClockPart} {opening : PhraseOpening}
    {sign : Option HalfSign} (inOpening : front ∈ openingPattern.ways place)
    (hour : front.1.text? .hour = some opening.hour) (minute : front.1.text? .minute = opening.minute)
    (noMinute : back.1.text? .minute = none) (half : back.1.text? .half = sign.map ([·.letter])) :
    ReadsPhrase (front.1 ++ back.1, back.2) ⟨opening, sign⟩ where
  hour := by rw [Captures.text?_append, hour, Option.some_or]
  minute := by rw [Captures.text?_append, minute, noMinute, Option.or_none]
  half := by
    have noHalf : front.1.text? .half = none := text?_eq_none_of_not_mem_slots (by decide) inOpening
    rw [Captures.text?_append, noHalf, Option.none_or, half]

theorem mayEnd_iff {place : Cursor} :
    mayEnd place = true ↔
      ∀ c ∈ place.rest.head?, Text.isWordChar c = false ∧ c ≠ ':' ∧ c ≠ '.' := by
  rw [← endMark_iff, mayEnd, Bool.not_eq_true']

/-- Where a sign stands that could end a phrase, some way takes one. -/
theorem isSome_find?_sign {sign : HalfSign} {behind : List Char} (proper : sign.IsProper)
    (standing : place.rest = sign.text ++ behind)
    (closes : ∀ c ∈ behind.head?, Text.isWordChar c = false ∧ c ≠ ':' ∧ c ≠ '.') :
    ((signPattern.ways place).find? (mayEnd ·.2)).isSome := by
  obtain ⟨way, member, ends⟩ :=
    exists_way_of_matches (by decide) proper.matches place.before behind
  rw [← standing] at member
  rw [List.find?_isSome]
  exact ⟨way, member, mayEnd_iff.mpr (ends ▸ closes)⟩

theorem exists_signed_phrase {front back : Way ClockPart} (edge : place.atWordEdge = true)
    (inOpening : front ∈ openingPattern.ways place) (inSign : back ∈ signPattern.ways front.2)
    (ends : mayEnd back.2 = true) :
    ∃ phrase : ClockPhrase, phrase.IsReadAt place ∧
      ReadsPhrase (front.1 ++ back.1, back.2) phrase := by
  obtain ⟨opening, isOpening, standing, hour, minute⟩ := opening_way inOpening
  obtain ⟨sign, isSign, behindOpening, half⟩ := sign_way inSign
  have noMinute : back.1.text? .minute = none := text?_eq_none_of_not_mem_slots (by decide) inSign
  have stands : ClockPhrase.StandsAt ⟨opening, some sign⟩ place back.2.rest := by
    refine ⟨isOpening, ?_, ?_, (atWordEdge_iff isOpening standing).mp edge, mayEnd_iff.mp ends⟩
    · rintro _ ⟨⟩
      exact isSign
    · rw [standing, behindOpening, ClockPhrase.text_append]
      rfl
  exact ⟨⟨opening, some sign⟩,
    ⟨⟨_, stands⟩, fun unsigned => absurd unsigned (Option.some_ne_none sign)⟩,
    .of_parts inOpening hour minute noMinute half⟩

theorem exists_unsigned_phrase {front : Way ClockPart} (edge : place.atWordEdge = true)
    (inOpening : front ∈ openingPattern.ways place) (ends : mayEnd front.2 = true)
    (noSign : (signPattern.ways front.2).find? (mayEnd ·.2) = none) :
    ∃ phrase : ClockPhrase, phrase.IsReadAt place ∧ ReadsPhrase front phrase := by
  obtain ⟨opening, isOpening, standing, hour, minute⟩ := opening_way inOpening
  have stands : ClockPhrase.StandsAt ⟨opening, none⟩ place front.2.rest := by
    refine ⟨isOpening, ?_, ?_, (atWordEdge_iff isOpening standing).mp edge, mayEnd_iff.mp ends⟩
    · exact fun sign absent => absurd absent (Option.not_mem_none sign)
    · rw [standing, ClockPhrase.text_append]
      rfl
  refine ⟨⟨opening, none⟩, ⟨⟨_, stands⟩, fun _ other behind alsoStands => ?_⟩,
    hour, minute, text?_eq_none_of_not_mem_slots (by decide) inOpening⟩
  cases signed : other.sign with
  | none => rfl
  | some sign =>
      obtain ⟨-, behindOpening⟩ := stands.opening_eq alsoStands
      rw [signed] at behindOpening
      have found := isSome_find?_sign (alsoStands.sign sign signed) behindOpening alsoStands.closes
      rw [noSign] at found
      cases found

/-- The phrase that is read at a place is the one of the first way. -/
theorem readAt?_clockPhrase {found : Occurrence ClockPart}
    (read : clockPhrase.readAt? place = some found) :
    ∃ phrase : ClockPhrase, phrase.IsReadAt place ∧ clockOfPhrase? found.captures = phrase.clock? := by
  rw [readAt?_eq] at read
  split at read
  · rename_i edge
    obtain ⟨way, accepted, rfl⟩ := Option.map_eq_some_iff.mp read
    obtain ⟨front, inOpening, back, taken, rfl⟩ := find?_ways_seq mayEnd accepted
    have ends : mayEnd back.2 = true := by simpa using List.find?_some accepted
    rw [Pattern.optional, ways, List.find?_append] at taken
    cases signed : (signPattern.ways front.2).find? (mayEnd ·.2) with
    | some last =>
        rw [signed, Option.some_or] at taken
        cases taken
        obtain ⟨phrase, isRead, parts⟩ :=
          exists_signed_phrase edge inOpening (List.mem_of_find?_eq_some signed) ends
        exact ⟨phrase, isRead, parts.clock?_eq⟩
    | none =>
        rw [signed, Option.none_or] at taken
        obtain rfl : back = ([], front.2) :=
          List.mem_singleton.mp (List.mem_of_find?_eq_some taken)
        obtain ⟨phrase, isRead, parts⟩ := exists_unsigned_phrase edge inOpening ends signed
        rw [List.append_nil]
        exact ⟨phrase, isRead, parts.clock?_eq⟩
  · cases read

theorem ClockPhrase.StandsAt.isSome_readAt? {phrase : ClockPhrase} {behind : List Char}
    (stands : phrase.StandsAt place behind) : (clockPhrase.readAt? place).isSome := by
  have reads : (seq openingPattern (Pattern.optional signPattern)).Matches phrase.text := by
    refine ⟨_, _, rfl, stands.opening.matches, ?_⟩
    cases taken : phrase.sign with
    | none => exact Or.inr rfl
    | some sign => exact Or.inl (stands.sign sign taken).matches
  obtain ⟨way, member, ends⟩ := exists_way_of_matches (by decide) reads place.before behind
  rw [← stands.standing] at member
  have standing := stands.standing
  rw [text_append] at standing
  have edge := (atWordEdge_iff stands.opening standing).mpr stands.opens
  rw [readAt?_eq, if_pos edge, Option.isSome_map, List.find?_isSome]
  exact ⟨way, member, mayEnd_iff.mpr (ends ▸ stands.closes)⟩

/-- At each place the one phrase that is read there decides. -/
theorem bind_readAt?_eq_some_iff {clock : Clock} :
    ((clockPhrase.readAt? place).bind fun found => clockOfPhrase? found.captures) = some clock ↔
      ∃ phrase : ClockPhrase, phrase.IsReadAt place ∧ phrase.clock? = some clock := by
  constructor
  · intro told
    obtain ⟨found, read, known⟩ := Option.bind_eq_some_iff.mp told
    obtain ⟨phrase, isRead, same⟩ := readAt?_clockPhrase read
    exact ⟨phrase, isRead, same ▸ known⟩
  · intro told
    obtain ⟨phrase, isRead, known⟩ := told
    obtain ⟨behind, stands⟩ := isRead.1
    obtain ⟨found, read⟩ := Option.isSome_iff_exists.mp stands.isSome_readAt?
    obtain ⟨other, alsoRead, same⟩ := readAt?_clockPhrase read
    rw [read, Option.bind_some, same, ← isRead.unique alsoRead, known]

/-! No phrase begins inside another one -/

/-- Inside a phrase a letter a stands only in front of a point or an m. -/
def opensInside (residual : Pattern ClockPart) : Bool :=
  residual.steps.any fun step => ['a', 'A'].any step.1.contains &&
    (step.2.skips || step.2.steps.any fun next => "trbTRB".toList.any next.1.contains)

theorem exists_letters_of_lead {lead : List Char}
    (isLead : ∃ word ∈ ["at", "around", "about"], List.Forall₂ InEitherCase word.toList lead) :
    ∃ c d rest, lead = c :: d :: rest ∧ c ∈ ['a', 'A'] ∧ d ∈ "trbTRB".toList := by
  obtain ⟨word, listed, letters⟩ := isLead
  have begins : ∃ d rest, word.toList = 'a' :: d :: rest ∧ d ∈ ['t', 'r', 'b'] := by
    simp only [List.mem_cons, List.not_mem_nil, or_false] at listed
    rcases listed with rfl | rfl | rfl
    · exact ⟨'t', [], rfl, by decide⟩
    · exact ⟨'r', "ound".toList, rfl, by decide⟩
    · exact ⟨'b', "out".toList, rfl, by decide⟩
  obtain ⟨second, rest, same, known⟩ := begins
  rw [same] at letters
  obtain ⟨c, behind, isFirst, others, rfl⟩ := List.forall₂_cons_left_iff.mp letters
  obtain ⟨d, further, isSecond, -, rfl⟩ := List.forall₂_cons_left_iff.mp others
  have capitals : ∀ letter ∈ ['t', 'r', 'b'],
      letter ∈ "trbTRB".toList ∧ letter.toUpper ∈ "trbTRB".toList := by
    simp only [List.forall_mem_cons]
    exact ⟨by decide, by decide, by decide, nofun⟩
  refine ⟨c, d, further, rfl, by rcases isFirst with rfl | rfl <;> decide, ?_⟩
  rcases isSecond with rfl | rfl
  · exact (capitals _ known).1
  · exact (capitals _ known).2

/-- A phrase would begin inside another one with two letters that do not stand together there. -/
theorem clockPhrase_neverOverlaps : clockPhrase.NeverOverlaps := by
  intro place found read front rest cut nonempty shorter
  have noneInside : ∀ residual ∈ clockPhrase.residuals, opensInside residual = false := by decide
  obtain ⟨start, inWays⟩ := readAt?_eq_some read
  obtain ⟨text, standing, reads⟩ := matches_of_mem_ways inWays
  have readText : found.text = text := by rw [Occurrence.text, start, upTo_of_rest_eq standing]
  rw [readText] at shorter
  obtain ⟨inner, rfl, behind⟩ : ∃ inner, text = front ++ inner ∧ rest = inner ++ found.stop.rest := by
    rcases List.append_eq_append_iff.mp (cut.symm.trans standing) with
      ⟨inner, same, behind⟩ | ⟨more, same, _⟩
    · exact ⟨inner, same, behind⟩
    · have := congrArg List.length same
      rw [List.length_append] at this
      omega
  obtain ⟨residual, left, readsInner⟩ := exists_residual reads nonempty
  by_contra overlaps
  obtain ⟨other, alsoRead⟩ := Option.ne_none_iff_exists'.mp overlaps
  obtain ⟨phrase, ⟨⟨after, stands⟩, _⟩, _⟩ := readAt?_clockPhrase alsoRead
  obtain ⟨c, d, others, isLead, isFirst, isSecond⟩ := exists_letters_of_lead stands.opening.lead
  have begins : ∃ tail, rest = c :: d :: tail := by
    have written := stands.standing
    rw [ClockPhrase.text, PhraseOpening.text, isLead] at written
    exact ⟨_, written⟩
  obtain ⟨tail, rfl⟩ := begins
  have inside := noneInside residual left
  cases inner with
  | nil =>
      rw [List.append_nil] at shorter
      exact Nat.lt_irrefl _ shorter
  | cons e inner =>
      obtain ⟨rfl, behindFirst⟩ := List.cons.inj behind
      obtain ⟨step, inSteps, contained, further⟩ := exists_step_of_matches_cons readsInner
      have first : ['a', 'A'].any step.1.contains = true :=
        List.any_eq_true.mpr ⟨c, isFirst, contained⟩
      have closed := List.any_eq_false.mp inside step inSteps
      rw [first, Bool.true_and, Bool.or_eq_true, not_or] at closed
      cases inner with
      | nil => exact closed.1 (skips_of_matches_nil further)
      | cons e inner =>
          obtain ⟨rfl, -⟩ := List.cons.inj behindFirst
          obtain ⟨next, inNext, alsoContained, -⟩ := exists_step_of_matches_cons further
          exact closed.2 (List.any_eq_true.mpr
            ⟨next, inNext, List.any_eq_true.mpr ⟨d, isSecond, alsoContained⟩⟩)

end Recurrence.Mention
