import Recurrence.Proofs.Pattern.Extend
import Recurrence.Proofs.Phrase.Captures
import Recurrence.Proofs.Phrase.Standing

namespace Recurrence.Phrase

/-! Times of day as they are written, and the times that they mean by the clocks of twelve and of
twenty-four hours. A phrase that ends in "at" and such a time is read as this time, since no time has
an "at" inside. -/

open Pattern

inductive Half where
  | am | pm
deriving DecidableEq, Repr

namespace Half

def text : Half → List Char
  | .am => "am".toList
  | .pm => "pm".toList

/-- The hour of the day at which the hand of a clock shows an hour in this half. -/
def hour (face : Nat) : Half → Nat
  | .am => if face = 12 then 0 else face
  | .pm => if face = 12 then 12 else face + 12

end Half

inductive WrittenTime where
  | toTheMinute (hour minute gap : List Char) (half : Option Half)
  | onTheHour (hour gap : List Char) (half : Half)
  | noon
  | midnight
deriving DecidableEq, Repr

namespace WrittenTime

def text : WrittenTime → List Char
  | .toTheMinute hour minute gap half =>
      hour ++ ':' :: (minute ++ (gap ++ (half.map Half.text).getD []))
  | .onTheHour hour gap half => hour ++ (gap ++ half.text)
  | .noon => "noon".toList
  | .midnight => "midnight".toList

@[simp] theorem text_toTheMinute (hour minute gap : List Char) (half : Option Half) :
    (toTheMinute hour minute gap half).text =
      hour ++ ':' :: (minute ++ (gap ++ (half.map Half.text).getD [])) := rfl

@[simp] theorem text_onTheHour (hour gap : List Char) (half : Half) :
    (onTheHour hour gap half).text = hour ++ (gap ++ half.text) := rfl

@[simp] theorem text_noon : noon.text = "noon".toList := rfl

@[simp] theorem text_midnight : midnight.text = "midnight".toList := rfl

/-- One or two digits for the hour, two for the minute, and blanks in between. -/
def IsProper : WrittenTime → Prop
  | .toTheMinute hour minute gap _ => (IsNumeral hour ∧ hour.length ≤ 2) ∧
      (IsNumeral minute ∧ minute.length = 2) ∧ ∀ c ∈ gap, Text.isBlank c = true
  | .onTheHour hour gap _ => (IsNumeral hour ∧ hour.length ≤ 2) ∧ ∀ c ∈ gap, Text.isBlank c = true
  | .noon | .midnight => True

instance (digits : List Char) : Decidable (IsNumeral digits) :=
  decidable_of_iff (digits ≠ [] ∧ digits.all Text.isDigit = true)
    (and_congr_right fun _ => List.all_eq_true)

instance (gap : List Char) : Decidable (∀ c ∈ gap, Text.isBlank c = true) :=
  decidable_of_iff (gap.all Text.isBlank = true) List.all_eq_true

instance : DecidablePred IsProper
  | .toTheMinute _ _ _ _ => inferInstanceAs (Decidable ((_ ∧ _) ∧ (_ ∧ _) ∧ _))
  | .onTheHour _ _ _ => inferInstanceAs (Decidable ((_ ∧ _) ∧ _))
  | .noon | .midnight => inferInstanceAs (Decidable True)

/-- The number that is written, if it lies between two others. -/
def numberIn? (least greatest : Nat) (digits : List Char) : Option Nat :=
  let n := Text.digitsValue digits
  if least ≤ n ∧ n ≤ greatest then some n else none

def hour? (digits : List Char) : Option Half → Option Nat
  | none => numberIn? 0 23 digits
  | some half => do return half.hour (← numberIn? 1 12 digits)

/-- The time that is meant, if the numbers are those of a clock. -/
def clock? : WrittenTime → Option Clock
  | .toTheMinute hour minute _ half => do
      let h ← hour? hour half
      let m ← numberIn? 0 59 minute
      return ⟨h, m⟩
  | .onTheHour hour _ half => do
      let h ← hour? hour half
      return ⟨h, 0⟩
  | .noon => some .noon
  | .midnight => some .midnight

end WrittenTime

/-! Senses that tell a value -/

/-- A sense is the value that is known, or it is out of range where there is none. -/
def Tells (known : Option α) (sense : Sense α) : Prop :=
  match known with
  | some value => sense = .ok value
  | none => ∃ fault, sense = .error (.outOfRange fault)

theorem Tells.bind {known : Option α} {sense : Sense α} {further : α → Option β}
    {next : α → Sense β} (tells : Tells known sense)
    (onward : ∀ a, known = some a → Tells (further a) (next a)) :
    Tells (known >>= further) (sense >>= next) := by
  cases known with
  | none =>
      obtain ⟨fault, rfl⟩ := tells
      exact ⟨fault, rfl⟩
  | some value =>
      cases tells
      exact onward value rfl

theorem tells_boundedNumber {digits : List Char} (short : digits.length ≤ 2)
    (least greatest : Nat) (fault : RangeFault) :
    Tells (WrittenTime.numberIn? least greatest digits)
      (boundedNumber digits least greatest fault) := by
  have reads : Text.readDigits digits = .ok (Text.digitsValue digits) :=
    if_pos (short.trans (by decide))
  have number : number digits = .ok (Text.digitsValue digits) := by rw [number, reads]
  rw [boundedNumber, number]
  change Tells _ (within _ _ _ _)
  by_cases inRange : least ≤ Text.digitsValue digits ∧ Text.digitsValue digits ≤ greatest
  · simp only [within, WrittenTime.numberIn?, if_pos inRange]
    rfl
  · simp only [within, WrittenTime.numberIn?, if_neg inRange]
    exact ⟨fault, rfl⟩

theorem Half.hour_eq {face : Nat} (least : 1 ≤ face) (greatest : face ≤ 12) (half : Half) :
    face % 12 + (if half.text = "pm".toList then 12 else 0) = half.hour face := by
  cases half with
  | am =>
      rw [if_neg (by decide), hour]
      split <;> omega
  | pm =>
      rw [if_pos (by decide), hour]
      split <;> omega

theorem tells_hourOf {digits : List Char} (short : digits.length ≤ 2) (half : Option Half) :
    Tells (WrittenTime.hour? digits half) (hourOf digits (half.map Half.text)) := by
  cases half with
  | none => exact tells_boundedNumber short 0 23 .hour
  | some half =>
      have told := tells_boundedNumber short 1 12 (.hourOfHalf half.text)
      refine told.bind fun face known => ?_
      simp only [WrittenTime.numberIn?, Option.ite_none_right_eq_some, Option.some.injEq] at known
      obtain ⟨⟨least, greatest⟩, rfl⟩ := known
      exact congrArg Except.ok (half.hour_eq least greatest)

/-! Readings of times -/

/-- Nothing of a time of day is captured. -/
def Untimed (captures : Captures Slot) : Prop :=
  ∀ slot ∈ clockSlots, captures.text? slot = none

instance (captures : Captures Slot) : Decidable (Untimed captures) :=
  inferInstanceAs (Decidable (∀ slot ∈ clockSlots, captures.text? slot = none))

theorem Untimed.clockOf_append {front back : Captures Slot} (untimed : Untimed front) :
    clockOf (front ++ back) = clockOf back := by
  refine clockOf_congr fun slot listed => ?_
  rw [Captures.text?_append, untimed slot listed, Option.none_or]

theorem exists_half_of_meridiem {text : List Char} (reads : meridiemWord.Matches text) :
    ∃ half : Half, half.text = text := by
  have listed := (matches_anyOf_words ["am", "pm"] (by decide)).mp reads
  simp only [List.map_cons, List.map_nil, List.mem_cons, List.not_mem_nil, or_false] at listed
  rcases listed with rfl | rfl
  · exact ⟨.am, rfl⟩
  · exact ⟨.pm, rfl⟩

/-- A part that captures nothing inside is captured as the text that it reads. -/
theorem capture_way {σ : Type} {slot : σ} {body : Pattern σ} {place : Cursor} {way : Way σ}
    (silent : body.slots = []) (member : way ∈ (capture slot body).ways place) :
    ∃ read, place.rest = read ++ way.2.rest ∧ body.Matches read ∧
      way.1 = [(slot, place, way.2)] ∧ place.upTo way.2 = read := by
  obtain ⟨inner, inBody, rfl⟩ := List.mem_map.mp member
  obtain ⟨read, cut, reads⟩ := matches_of_mem_ways inBody
  exact ⟨read, cut, reads, by rw [captures_eq_nil silent inBody], upTo_of_rest_eq cut⟩

def timeToTheMinute : PhrasePattern :=
  inOrder [capture .hour shortNumber, ":", capture .minute (.seq digit digit), blanks,
    optional (capture .meridiem meridiemWord)]

def timeOnTheHour : PhrasePattern :=
  inOrder [capture .hour shortNumber, blanks, capture .meridiem meridiemWord]

theorem isBlank_of_blanks {σ : Type} {text : List Char}
    (reads : (blanks : Pattern σ).Matches text) : ∀ c ∈ text, Text.isBlank c = true := by
  have onlyBlanks : ∀ set ∈ (blanks : Pattern σ).sets, set = .blank := fun _ => List.mem_singleton.mp
  intro c member
  obtain ⟨set, listed, contained⟩ := exists_set_of_matches reads c member
  rw [onlyBlanks set listed] at contained
  exact contained

/-- What is read of a time is a written one, and the captures tell what it means. -/
structure ReadsTime (place : Cursor) (way : Way Slot) (time : WrittenTime) : Prop where
  proper : time.IsProper
  standing : place.rest = time.text ++ way.2.rest
  tells : Tells time.clock? (clockOf way.1)
  timed : ¬ Untimed way.1

variable {place : Cursor} {way : Way Slot}

theorem text?_cons {σ : Type} [DecidableEq σ] (slot other : σ) (start stop : Cursor)
    (captures : Captures σ) :
    Captures.text? ((slot, start, stop) :: captures) other =
      if slot = other then some (start.upTo stop) else captures.text? other := by
  by_cases same : slot = other <;> simp [Captures.text?, same]

theorem meridiem_way (member : way ∈ (capture .meridiem meridiemWord).ways place) :
    ∃ half : Half, place.rest = half.text ++ way.2.rest ∧
      way.1.text? .meridiem = some half.text := by
  obtain ⟨read, cut, reads, captured, isRead⟩ := capture_way rfl member
  obtain ⟨half, rfl⟩ := exists_half_of_meridiem reads
  exact ⟨half, cut, by rw [captured, text?_cons, if_pos rfl, isRead]⟩

theorem optional_meridiem_way
    (member : way ∈ (optional (capture .meridiem meridiemWord)).ways place) :
    ∃ half : Option Half, place.rest = (half.map Half.text).getD [] ++ way.2.rest ∧
      way.1.text? .meridiem = half.map Half.text := by
  rcases mem_ways_optional.mp member with written | rfl
  · obtain ⟨half, cut, captured⟩ := meridiem_way written
    exact ⟨some half, cut, captured⟩
  · exact ⟨none, rfl, rfl⟩

theorem timeToTheMinute_way (member : way ∈ timeToTheMinute.ways place) :
    ∃ time, ReadsTime place way time := by
  simp only [timeToTheMinute, inOrder, mem_ways_seq] at member
  obtain ⟨hour, inHour, _, ⟨colon, inColon, _, ⟨minute, inMinute, _, ⟨gap, inGap, half, inHalf, rfl⟩,
    rfl⟩, rfl⟩, rfl⟩ := member
  obtain ⟨hourText, hourCut, readsHour, hourCaptured, hourRead⟩ := capture_way rfl inHour
  obtain ⟨colonText, colonCut, readsColon⟩ := matches_of_mem_ways inColon
  obtain ⟨minuteText, minuteCut, readsMinute, minuteCaptured, minuteRead⟩ := capture_way rfl inMinute
  obtain ⟨gapText, gapCut, readsGap⟩ := matches_of_mem_ways inGap
  obtain ⟨written, halfCut, halfCaptured⟩ := optional_meridiem_way inHalf
  have hourIs := isNumeral_of_shortNumber readsHour
  have minuteIs := isNumeral_of_twoDigits readsMinute
  let captures : Captures Slot := (.hour, place, hour.2) :: (.minute, colon.2, minute.2) :: half.1
  have parts : hour.1 ++ (colon.1 ++ (minute.1 ++ (gap.1 ++ half.1))) = captures := by
    rw [hourCaptured, minuteCaptured, captures_eq_nil rfl inColon, captures_eq_nil rfl inGap]
    rfl
  have wordTold : captures.text? .clockWord = none := by
    rw [text?_cons, if_neg (by decide), text?_cons, if_neg (by decide)]
    exact text?_eq_none_of_not_mem_slots (by decide) inHalf
  have hourTold : captures.text? .hour = some hourText := by
    rw [text?_cons, if_pos rfl, hourRead]
  have minuteTold : captures.text? .minute = some minuteText := by
    rw [text?_cons, if_neg (by decide), text?_cons, if_pos rfl, minuteRead]
  have meridiemTold : captures.text? .meridiem = written.map Half.text := by
    rw [text?_cons, if_neg (by decide), text?_cons, if_neg (by decide), halfCaptured]
  refine ⟨.toTheMinute hourText minuteText gapText written, ?_, ?_, ?_, ?_⟩
  · exact ⟨hourIs, minuteIs, isBlank_of_blanks readsGap⟩
  · rw [hourCut, colonCut, minuteCut, gapCut, halfCut, matches_literal.mp readsColon]
    simp
  · dsimp only
    rw [parts]
    unfold clockOf
    rw [wordTold, hourTold, minuteTold, meridiemTold]
    exact (tells_hourOf hourIs.2 written).bind fun _ _ =>
      (tells_boundedNumber minuteIs.2.le 0 59 .minute).bind fun _ _ => rfl
  · intro untimed
    dsimp only at untimed
    rw [parts] at untimed
    cases hourTold.symm.trans (untimed .hour (by decide))

theorem timeOnTheHour_way (member : way ∈ timeOnTheHour.ways place) :
    ∃ time, ReadsTime place way time := by
  simp only [timeOnTheHour, inOrder, mem_ways_seq] at member
  obtain ⟨hour, inHour, _, ⟨gap, inGap, half, inHalf, rfl⟩, rfl⟩ := member
  obtain ⟨hourText, hourCut, readsHour, hourCaptured, hourRead⟩ := capture_way rfl inHour
  obtain ⟨gapText, gapCut, readsGap⟩ := matches_of_mem_ways inGap
  obtain ⟨written, halfCut, halfCaptured⟩ := meridiem_way inHalf
  have hourIs := isNumeral_of_shortNumber readsHour
  let captures : Captures Slot := (.hour, place, hour.2) :: half.1
  have parts : hour.1 ++ (gap.1 ++ half.1) = captures := by
    rw [hourCaptured, captures_eq_nil rfl inGap]
    rfl
  have wordTold : captures.text? .clockWord = none := by
    rw [text?_cons, if_neg (by decide)]
    exact text?_eq_none_of_not_mem_slots (by decide) inHalf
  have minuteTold : captures.text? .minute = none := by
    rw [text?_cons, if_neg (by decide)]
    exact text?_eq_none_of_not_mem_slots (by decide) inHalf
  have hourTold : captures.text? .hour = some hourText := by
    rw [text?_cons, if_pos rfl, hourRead]
  have meridiemTold : captures.text? .meridiem = (some written).map Half.text := by
    rw [text?_cons, if_neg (by decide), halfCaptured]
    rfl
  refine ⟨.onTheHour hourText gapText written, ?_, ?_, ?_, ?_⟩
  · exact ⟨hourIs, isBlank_of_blanks readsGap⟩
  · rw [hourCut, gapCut, halfCut]
    simp
  · dsimp only
    rw [parts]
    unfold clockOf
    rw [wordTold, hourTold, minuteTold, meridiemTold]
    exact (tells_hourOf hourIs.2 (some written)).bind fun _ _ => rfl
  · intro untimed
    dsimp only at untimed
    rw [parts] at untimed
    cases hourTold.symm.trans (untimed .hour (by decide))

theorem timeInAWord_way
    (member : way ∈ (capture .clockWord (anyOf ["noon", "midnight"])).ways place) :
    ∃ time, ReadsTime place way time := by
  obtain ⟨read, cut, reads, captured, isRead⟩ := capture_way rfl member
  have listed := (matches_anyOf_words ["noon", "midnight"] (by decide)).mp reads
  simp only [List.map_cons, List.map_nil, List.mem_cons, List.not_mem_nil, or_false] at listed
  have told : way.1.text? .clockWord = some read := by
    rw [captured, text?_cons, if_pos rfl, isRead]
  have timed : ¬ Untimed way.1 := fun untimed => by
    cases told.symm.trans (untimed .clockWord (by decide))
  rcases listed with rfl | rfl
  · exact ⟨.noon, trivial, cut, by simp only [clockOf, told]; rfl, timed⟩
  · exact ⟨.midnight, trivial, cut, by simp only [clockOf, told]; rfl, timed⟩

theorem timeOfDay_way (member : way ∈ timeOfDay.ways place) :
    ∃ time, ReadsTime place way time := by
  have forms : timeOfDay = anyOf [timeToTheMinute, timeOnTheHour,
      capture .clockWord (anyOf ["noon", "midnight"])] := rfl
  rw [forms, mem_ways_anyOf (List.cons_ne_nil _ _)] at member
  obtain ⟨form, listed, inForm⟩ := member
  simp only [List.mem_cons, List.not_mem_nil, or_false] at listed
  rcases listed with rfl | rfl | rfl
  · exact timeToTheMinute_way inForm
  · exact timeOnTheHour_way inForm
  · exact timeInAWord_way inForm

/-! Texts of times -/

theorem digit_of_isNumeral {text : List Char} (isNumeral : IsNumeral text) :
    ∃ c rest, text = c :: rest ∧ Text.isDigit c = true := by
  obtain ⟨c, rest, rfl⟩ := List.exists_cons_of_ne_nil isNumeral.1
  exact ⟨c, rest, rfl, isNumeral.2 c List.mem_cons_self⟩

theorem matches_digit {σ : Type} {c : Char} (isDigit : Text.isDigit c = true) :
    (digit : Pattern σ).Matches [c] :=
  ⟨c, rfl, isDigit⟩

theorem shortNumber_matches {σ : Type} {text : List Char} (isNumeral : IsNumeral text)
    (short : text.length ≤ 2) : (shortNumber : Pattern σ).Matches text := by
  obtain ⟨c, rest, rfl⟩ := List.exists_cons_of_ne_nil isNumeral.1
  obtain ⟨first, others⟩ := List.forall_mem_cons.mp isNumeral.2
  refine ⟨[c], rest, rfl, matches_digit first, ?_⟩
  cases rest with
  | nil => exact Or.inr rfl
  | cons d rest =>
      have ended : rest = [] := by simpa using short
      subst ended
      exact Or.inl (matches_digit (others d List.mem_cons_self))

theorem twoDigits_matches {σ : Type} {text : List Char} (isNumeral : IsNumeral text)
    (two : text.length = 2) : (seq digit digit : Pattern σ).Matches text := by
  obtain ⟨c, d, rfl⟩ := List.length_eq_two.mp two
  exact ⟨[c], [d], rfl, matches_digit (isNumeral.2 c (by simp)),
    matches_digit (isNumeral.2 d (by simp))⟩

theorem blanks_matches {σ : Type} {text : List Char}
    (blank : ∀ c ∈ text, Text.isBlank c = true) : (blanks : Pattern σ).Matches text := by
  refine ⟨text.map ([·]), by simp [List.flatten_eq_flatMap, List.flatMap_map], ?_⟩
  intro piece listed
  obtain ⟨c, member, rfl⟩ := List.mem_map.mp listed
  exact ⟨c, rfl, blank c member⟩

theorem meridiemWord_matches (half : Half) : meridiemWord.Matches half.text :=
  (matches_anyOf_words ["am", "pm"] (by decide)).mpr (by cases half <;> decide)

namespace WrittenTime

variable {time other : WrittenTime}

theorem IsProper.matches (proper : time.IsProper) : timeOfDay.Matches time.text := by
  cases time with
  | toTheMinute hour minute gap half =>
      obtain ⟨⟨isHour, hourShort⟩, ⟨isMinute, two⟩, blank⟩ := proper
      refine Or.inl ⟨hour, _, rfl, shortNumber_matches isHour hourShort, [':'], _, rfl,
        matches_literal.mpr rfl, minute, _, rfl, twoDigits_matches isMinute two, gap, _, rfl,
        blanks_matches blank, ?_⟩
      cases half with
      | none => exact Or.inr rfl
      | some half => exact Or.inl (meridiemWord_matches half)
  | onTheHour hour gap half =>
      obtain ⟨⟨isHour, hourShort⟩, blank⟩ := proper
      exact Or.inr (Or.inl ⟨hour, _, rfl, shortNumber_matches isHour hourShort, gap, _, rfl,
        blanks_matches blank, meridiemWord_matches half⟩)
  | noon => exact Or.inr (Or.inr ((matches_anyOf_words ["noon", "midnight"] (by decide)).mpr
      List.mem_cons_self))
  | midnight => exact Or.inr (Or.inr ((matches_anyOf_words ["noon", "midnight"] (by decide)).mpr
      (List.mem_cons_of_mem _ List.mem_cons_self)))

/-- No time has both letters of "at", so an "at" in front of a time is the last one. -/
theorem IsProper.no_at (proper : time.IsProper) : 'a' ∉ time.text ∨ 't' ∉ time.text := by
  have noLetter {digits : List Char} (isNumeral : IsNumeral digits) : 't' ∉ digits :=
    fun member => absurd (isNumeral.2 _ member) (by decide)
  have noBlank {gap : List Char} (blank : ∀ c ∈ gap, Text.isBlank c = true) : 't' ∉ gap :=
    fun member => absurd (blank _ member) (by decide)
  have noHalf (half : Half) : 't' ∉ half.text := by cases half <;> decide
  cases time with
  | toTheMinute hour minute gap half =>
      obtain ⟨⟨isHour, _⟩, ⟨isMinute, _⟩, blank⟩ := proper
      refine Or.inr ?_
      cases half with
      | none => simp [noLetter isHour, noLetter isMinute, noBlank blank]
      | some half => simp [noLetter isHour, noLetter isMinute, noBlank blank, noHalf half]
  | onTheHour hour gap half =>
      obtain ⟨⟨isHour, _⟩, blank⟩ := proper
      exact Or.inr (by simp [noLetter isHour, noBlank blank, noHalf half])
  | noon => exact Or.inl (by decide)
  | midnight => exact Or.inl (by decide)

end WrittenTime

/-- The times in the form that phrases have for them are the proper ones. -/
theorem timeOfDay_matches_iff {text : List Char} :
    timeOfDay.Matches text ↔ ∃ time : WrittenTime, time.IsProper ∧ time.text = text := by
  constructor
  · intro reads
    obtain ⟨way, member, ended⟩ := exists_way_of_matches (by decide) reads none []
    obtain ⟨time, isTime⟩ := timeOfDay_way member
    have standing : text ++ [] = time.text ++ [] := ended ▸ isTime.standing
    exact ⟨time, isTime.proper, (List.append_cancel_right standing).symm⟩
  · intro written
    obtain ⟨time, proper, rfl⟩ := written
    exact proper.matches

namespace WrittenTime

variable {time other : WrittenTime}

theorem numeral_ne_word {digits rest word : List Char} (isNumeral : IsNumeral digits)
    (letters : word.any Text.isDigit = false) : digits ++ rest ≠ word := by
  rintro rfl
  obtain ⟨c, others, rfl, isDigit⟩ := digit_of_isNumeral isNumeral
  exact List.any_eq_false.mp letters c List.mem_cons_self isDigit

theorem half_head {half : Option Half} :
    ((half.map Half.text).getD []).head?.any Text.isBlank = false ∧
      ((half.map Half.text).getD []).head?.any Text.isDigit = false := by
  rcases half with none | half
  · exact ⟨rfl, rfl⟩
  · cases half <;> decide

theorem half_injective {half other : Option Half}
    (same : (half.map Half.text).getD [] = (other.map Half.text).getD []) : half = other := by
  rcases half with _ | half
  · rcases other with _ | other
    · rfl
    · cases other <;> cases same
  · rcases other with _ | other
    · cases half <;> cases same
    · cases half <;> cases other <;> first | rfl | cases same

/-- A gap and the half of the day behind it are told from their text. -/
theorem gap_and_half {gap rest : List Char} (half other : Option Half)
    (blank : ∀ c ∈ gap, Text.isBlank c = true) (otherBlank : ∀ c ∈ rest, Text.isBlank c = true)
    (same : gap ++ (half.map Half.text).getD [] = rest ++ (other.map Half.text).getD []) :
    gap = rest ∧ half = other := by
  obtain rfl := eq_of_runs same blank otherBlank half_head.1 half_head.1
  exact ⟨rfl, half_injective (List.append_cancel_left same)⟩

theorem gap_head {gap : List Char} (half : Option Half)
    (blank : ∀ c ∈ gap, Text.isBlank c = true) :
    (gap ++ (half.map Half.text).getD []).head?.any Text.isDigit = false := by
  refine head?_any_append (fun c member => Bool.eq_false_iff.mpr fun digit => ?_)
    fun _ => half_head.2
  exact absurd (blank c member) (by simp [Text.isBlank_of_isDigit digit])

theorem toTheMinute_ne_onTheHour {hour minute gap otherHour otherGap : List Char}
    {half : Option Half} {otherHalf : Half} (proper : (toTheMinute hour minute gap half).IsProper)
    (otherProper : (onTheHour otherHour otherGap otherHalf).IsProper) :
    (toTheMinute hour minute gap half).text ≠ (onTheHour otherHour otherGap otherHalf).text := by
  intro same
  obtain rfl := eq_of_runs same proper.1.1.2 otherProper.1.1.2 rfl
    (gap_head (some otherHalf) otherProper.2)
  have behind := List.append_cancel_left same
  have colon : ':' ∈ otherGap ++ otherHalf.text := behind ▸ List.mem_cons_self
  rcases List.mem_append.mp colon with inGap | inHalf
  · exact absurd (otherProper.2 ':' inGap) (by decide)
  · revert inHalf
    cases otherHalf <;> decide

theorem IsProper.head_not_blank (proper : time.IsProper) :
    time.text.head?.any Text.isBlank = false := by
  have digitsFirst {digits rest : List Char} (isNumeral : IsNumeral digits) :
      (digits ++ rest).head?.any Text.isBlank = false :=
    head?_any_append (fun c member => Text.isBlank_of_isDigit (isNumeral.2 c member))
      fun empty => absurd empty isNumeral.1
  cases time with
  | toTheMinute | onTheHour => exact digitsFirst proper.1.1
  | noon | midnight => decide

/-- A time is told from its text. -/
theorem eq_of_text_eq (proper : time.IsProper) (otherProper : other.IsProper)
    (same : time.text = other.text) : time = other := by
  cases time with
  | toTheMinute hour minute gap half =>
      cases other with
      | toTheMinute otherHour otherMinute otherGap otherHalf =>
          obtain rfl := eq_of_runs same proper.1.1.2 otherProper.1.1.2 rfl rfl
          have behindHour := (List.cons.inj (List.append_cancel_left same)).2
          obtain ⟨rfl, behindMinute⟩ := List.append_inj behindHour
            (proper.2.1.2.trans otherProper.2.1.2.symm)
          obtain ⟨rfl, rfl⟩ := gap_and_half _ _ proper.2.2 otherProper.2.2 behindMinute
          rfl
      | onTheHour => exact absurd same (toTheMinute_ne_onTheHour proper otherProper)
      | noon | midnight => exact absurd same (numeral_ne_word proper.1.1 (by decide))
  | onTheHour hour gap half =>
      cases other with
      | toTheMinute => exact absurd same.symm (toTheMinute_ne_onTheHour otherProper proper)
      | onTheHour otherHour otherGap otherHalf =>
          obtain rfl := eq_of_runs same proper.1.1.2 otherProper.1.1.2
            (gap_head (some half) proper.2) (gap_head (some otherHalf) otherProper.2)
          obtain ⟨rfl, sameHalf⟩ := gap_and_half (some half) (some otherHalf) proper.2 otherProper.2
            (List.append_cancel_left same)
          rw [Option.some.inj sameHalf]
      | noon | midnight => exact absurd same (numeral_ne_word proper.1.1 (by decide))
  | noon =>
      cases other with
      | toTheMinute | onTheHour => exact absurd same.symm (numeral_ne_word otherProper.1.1 (by decide))
      | noon => rfl
      | midnight => exact absurd same (by decide)
  | midnight =>
      cases other with
      | toTheMinute | onTheHour => exact absurd same.symm (numeral_ne_word otherProper.1.1 (by decide))
      | noon => exact absurd same (by decide)
      | midnight => rfl

end WrittenTime

/-! Phrases that end in a time -/

def clockTail : PhrasePattern := inOrder ["at", blanks, timeOfDay]

theorem atTime_ways : atTime.ways = (seq blanks clockTail).ways := rfl

/-- Of two phrases that end in "at" and something without another one, what follows is the same. -/
theorem eq_of_last_at {front behind lead rest : List Char} (noAt : 'a' ∉ behind ∨ 't' ∉ behind)
    (noOtherAt : 'a' ∉ rest ∨ 't' ∉ rest)
    (same : front ++ 'a' :: 't' :: behind = lead ++ 'a' :: 't' :: rest) : behind = rest := by
  have earlier {more behind rest : List Char} (noAt : 'a' ∉ behind ∨ 't' ∉ behind)
      (same : 'a' :: 't' :: behind = more ++ 'a' :: 't' :: rest) : behind = rest := by
    cases more with
    | nil => simpa using same
    | cons c more =>
        cases more with
        | nil => simp at same
        | cons d more =>
            obtain ⟨_, _, rfl⟩ : 'a' = c ∧ 't' = d ∧ behind = more ++ 'a' :: 't' :: rest := by
              simpa using same
            simp at noAt
  rcases List.append_eq_append_iff.mp same with ⟨more, _, onward⟩ | ⟨more, _, onward⟩
  · exact earlier noAt onward
  · exact (earlier noOtherAt onward).symm

theorem no_at_of_gap {gap : List Char} {time : WrittenTime}
    (blank : ∀ c ∈ gap, Text.isBlank c = true) (proper : time.IsProper) :
    'a' ∉ gap ++ time.text ∨ 't' ∉ gap ++ time.text := by
  have noLetter {c : Char} (letter : Text.isBlank c = false) : c ∉ gap := by
    intro member
    rw [blank c member] at letter
    cases letter
  simp only [List.mem_append, noLetter (c := 'a') (by decide), noLetter (c := 't') (by decide),
    false_or]
  exact proper.no_at

/-- A text whose last word is "at" but for a time behind it. -/
structure EndsIn (time : WrittenTime) (text : List Char) : Prop where
  proper : time.IsProper
  place : ∃ lead gap, text = lead ++ ("at".toList ++ (gap ++ time.text)) ∧
    ∀ c ∈ gap, Text.isBlank c = true

theorem EndsIn.unique {time other : WrittenTime} {text : List Char} (ends : EndsIn time text)
    (alsoEnds : EndsIn other text) : other = time := by
  obtain ⟨proper, lead, gap, rfl, blank⟩ := ends
  obtain ⟨otherProper, front, otherGap, written, otherBlank⟩ := alsoEnds
  have same : gap ++ time.text = otherGap ++ other.text :=
    eq_of_last_at (no_at_of_gap blank proper) (no_at_of_gap otherBlank otherProper) written
  obtain rfl := eq_of_runs same blank otherBlank proper.head_not_blank otherProper.head_not_blank
  exact WrittenTime.eq_of_text_eq otherProper proper (List.append_cancel_left same).symm

theorem clockTail_way (member : way ∈ clockTail.ways place) :
    ∃ time : WrittenTime, Tells time.clock? (clockOf way.1) ∧ ¬ Untimed way.1 ∧
      ∀ before, way.2.rest = [] → EndsIn time (before ++ place.rest) := by
  simp only [clockTail, inOrder, mem_ways_seq] at member
  obtain ⟨at', inAt, _, ⟨spaces, inSpaces, last, inTime, rfl⟩, rfl⟩ := member
  obtain ⟨atText, atCut, readsAt⟩ := matches_of_mem_ways inAt
  obtain ⟨spacesText, spacesCut, readsSpaces⟩ := matches_of_mem_ways inSpaces
  obtain ⟨time, isTime⟩ := timeOfDay_way inTime
  rw [captures_eq_nil rfl inAt, captures_eq_nil rfl inSpaces]
  refine ⟨time, isTime.tells, isTime.timed, fun before ended => ?_⟩
  have standing : spaces.2.rest = time.text := by
    rw [isTime.standing, show last.2.rest = [] from ended, List.append_nil]
  refine ⟨isTime.proper, before, spacesText, ?_, isBlank_of_blanks readsSpaces⟩
  rw [atCut, spacesCut, standing, matches_literal.mp readsAt]

/-- A pattern that takes a time of day at its end, and nothing of one before. -/
structure TakesTime (pattern front : PhrasePattern) : Prop where
  shape : pattern.ways = (seq front clockTail).ways
  silent : ∀ slot ∈ clockSlots, slot ∉ front.slots

variable {pattern front : PhrasePattern} {captures : Captures Slot} {text : List Char}

theorem untimed_of_silent (silent : ∀ slot ∈ clockSlots, slot ∉ front.slots)
    (member : way ∈ front.ways place) : Untimed way.1 :=
  fun slot listed => text?_eq_none_of_not_mem_slots (silent slot listed) member

/-- The time that is captured is the one at the end of the text. -/
theorem TakesTime.exists_time (takes : TakesTime pattern front)
    (read : pattern.whole? text = some captures) :
    ∃ time, EndsIn time text ∧ Tells time.clock? (clockOf captures) := by
  obtain ⟨way, ended, rfl⟩ := Option.map_eq_some_iff.mp read
  have atEnd : way.2.rest = [] := by simpa using List.find?_some ended
  have member := List.mem_of_find?_eq_some ended
  rw [takes.shape] at member
  obtain ⟨lead, inLead, last, inTail, rfl⟩ := mem_ways_seq.mp member
  obtain ⟨leadText, cut, _⟩ := matches_of_mem_ways inLead
  obtain ⟨time, tells, _, endsBehind⟩ := clockTail_way inTail
  have standing : leadText ++ lead.2.rest = text := cut.symm
  refine ⟨time, standing ▸ endsBehind leadText atEnd, ?_⟩
  rwa [(untimed_of_silent takes.silent inLead).clockOf_append]

theorem TakesTime.tells {time : WrittenTime} (takes : TakesTime pattern front)
    (read : pattern.whole? text = some captures) (ends : EndsIn time text) :
    Tells time.clock? (clockOf captures) := by
  obtain ⟨other, alsoEnds, tells⟩ := takes.exists_time read
  rwa [ends.unique alsoEnds] at tells

end Recurrence.Phrase
