import Recurrence.Proofs.Coherence
import Recurrence.Proofs.Phrase.DigitScripts
import Recurrence.Proofs.Schedules

namespace Recurrence

/-! Answers to texts in any script of digits. They are those to the same text in plain digits, but for
the wording, and the schedules among them are always written in plain digits. -/

open Crontab Phrase Text

variable {teller : TimeTeller} {told : Option Clock} {text schedule : List Char} {format : Format}
  {reading : Reading}

/-! Digits of schedules -/

theorem hasPlainDigits_signed (n : Int) : HasPlainDigits (signed n) := by
  have digits (n : Nat) : HasPlainDigits (decimal n) :=
    fun c member _ => isPlainDigit_of_mem_decimal member
  unfold signed
  split
  · exact List.forall_mem_cons.mpr ⟨by decide, digits _⟩
  · exact digits _

theorem hasPlainDigits_intercalate {separator : Char} {pieces : List (List Char)}
    (notDigit : isDigit separator = false) (plain : ∀ piece ∈ pieces, HasPlainDigits piece) :
    HasPlainDigits ([separator].intercalate pieces) := by
  intro c member digit
  rcases mem_of_mem_intercalate member with rfl | ⟨piece, listed, inside⟩
  · rw [digit] at notDigit
    cases notDigit
  · exact plain piece listed c inside digit

theorem Crontab.Term.hasPlainDigits_text (term : Term) : HasPlainDigits term.text := by
  cases term with
  | any => exact List.forall_mem_singleton.mpr (by decide)
  | every step =>
      exact List.forall_mem_cons.mpr ⟨by decide, List.forall_mem_cons.mpr
        ⟨by decide, hasPlainDigits_signed step⟩⟩
  | only values =>
      exact hasPlainDigits_intercalate (by decide)
        (List.forall_mem_map.mpr fun value _ => hasPlainDigits_signed value)
  | span first last =>
      exact List.forall_mem_append.mpr ⟨hasPlainDigits_signed first,
        List.forall_mem_cons.mpr ⟨by decide, hasPlainDigits_signed last⟩⟩

theorem Crontab.Line.hasPlainDigits_text (line : Line) : HasPlainDigits line.text :=
  hasPlainDigits_intercalate (by decide)
    (List.forall_mem_map.mpr fun term _ => term.hasPlainDigits_text)

theorem Crontab.Line.hasPlainDigits_textIn (line : Line) (format : Format) :
    HasPlainDigits (line.textIn format) := by
  cases format with
  | five => exact line.hasPlainDigits_text
  | six =>
      refine List.forall_mem_append.mpr ⟨?_, line.hasPlainDigits_text⟩
      simp only [show "0 ".toList = ['0', ' '] by decide, List.forall_mem_cons]
      exact ⟨by decide, by decide, nofun⟩

theorem exists_line_of_readingOf {sense : Sense Phrase} (read : readingOf sense = .ok reading)
    (succeeded : reading.schedule? = some schedule) : ∃ line : Line, schedule = line.text := by
  cases sense with
  | ok phrase =>
      cases read
      rw [Phrase.schedule?_reading, Option.some.injEq] at succeeded
      exact ⟨phrase.line, succeeded.symm⟩
  | error fault =>
      cases fault with
      | outOfRange fault =>
          cases read
          cases succeeded
      | numeralTooLong fault => cases read

theorem exists_line_of_recognize (recognized : recognize text = .ok (some reading))
    (succeeded : reading.schedule? = some schedule) : ∃ line : Line, schedule = line.text := by
  unfold recognize at recognized
  split at recognized
  · rename_i sense _
    cases read : readingOf sense with
    | error fault =>
        rw [read] at recognized
        cases recognized
    | ok found =>
        rw [read] at recognized
        cases recognized
        exact exists_line_of_readingOf read succeeded
  · cases recognized

/-- Whatever the time that is told, a schedule is the text of a line. -/
theorem ComesTo.exists_line_text (comes : ComesTo teller text reading)
    (succeeded : reading.schedule? = some schedule) : ∃ line : Line, schedule = line.text := by
  cases comes with
  | failure complaint => cases succeeded
  | @recognized phrase found =>
      rw [Phrase.schedule?_reading, Option.some.injEq] at succeeded
      exact ⟨phrase.line, succeeded.symm⟩
  | weekdays unread told named => exact ⟨_, (Option.some.inj succeeded).symm⟩
  | @days clock n unread told bounds =>
      rw [Phrase.schedule?_reading, Option.some.injEq] at succeeded
      exact ⟨(Phrase.days n clock).line, succeeded.symm⟩
  | daily unread told => exact ⟨_, (Option.some.inj succeeded).symm⟩

theorem hasPlainDigits_of_interpretWith (read : interpretWith teller text format = .ok reading)
    (succeeded : reading.schedule? = some schedule) : HasPlainDigits schedule := by
  obtain ⟨base, comes, rfl⟩ := exists_comesTo_of_interpretWith read
  obtain ⟨schedule, found, laidOut⟩ := Reading.schedule?_inFormat succeeded
  obtain ⟨line, same⟩ := comes.exists_line_text found
  rw [laidOut line same]
  exact line.hasPlainDigits_textIn format

/-! Verdicts -/

/-- What a reading says apart from all wording. -/
def Reading.verdict (reading : Reading) :
    Option (List Char) × Confidence × Bool × Option (List Char) :=
  (reading.schedule?, reading.confidence, reading.approximate, reading.warning)

theorem Reading.verdict_inFormat_of_plain_eq {other : Reading} (same : reading.plain = other.plain)
    (format : Format) : (reading.inFormat format).verdict = (other.inFormat format).verdict := by
  have plain (reading : Reading) :
      (reading.plain.inFormat format).verdict = (reading.inFormat format).verdict := by
    cases format <;> rfl
  rw [← plain, same, plain]

theorem all_isBlank_plainDigits (text : List Char) :
    (plainDigits text).all isBlank = text.all isBlank := by
  simp only [plainDigits, List.all_map, Function.comp_def, isBlank_plainDigit]

theorem answer_looseInquiry_plainDigits (told : Option Clock) (text phrase : List Char) :
    (looseInquiry (plainDigits text) (plainDigits phrase)).answer (fun _ => .ok told) =
      (looseInquiry text phrase).answer fun _ => .ok told := by
  cases told with
  | none => rfl
  | some clock =>
      exact congrArg (Except.mapError Fault.numeralTooLong) (readLoosely_plainDigits phrase clock)

/-- Of the text itself only the complaint about a text that cannot be read makes use. -/
theorem verdict_looseInquiry_plainDigits (told : Option Clock) (text phrase : List Char)
    (format : Format) :
    (((looseInquiry (plainDigits text) (plainDigits phrase)).map fun reading =>
        (reading.map (·.inFormat format)).getD (unreadable (plainDigits text))).answer
          (fun _ => .ok told)).map Reading.verdict =
      (((looseInquiry text phrase).map fun reading =>
        (reading.map (·.inFormat format)).getD (unreadable text)).answer
          (fun _ => .ok told)).map Reading.verdict := by
  rw [Inquiry.answer_map, Inquiry.answer_map, answer_looseInquiry_plainDigits]
  cases (looseInquiry text phrase).answer fun _ => .ok told with
  | error fault => rfl
  | ok found => cases found <;> rfl

theorem plain_cases {one other : Except NumeralTooLong (Option Reading)}
    (same : one.map (Option.map Reading.plain) = other.map (Option.map Reading.plain)) :
    (∃ fault, one = .error fault ∧ other = .error fault) ∨
      (one = .ok none ∧ other = .ok none) ∨
        ∃ first second : Reading, one = .ok (some first) ∧ other = .ok (some second) ∧
          first.plain = second.plain := by
  cases one with
  | error fault =>
      cases other with
      | error otherFault =>
          cases same
          exact Or.inl ⟨fault, rfl, rfl⟩
      | ok second => cases same
  | ok first =>
      cases other with
      | error otherFault => cases same
      | ok second =>
          have alike : first.map Reading.plain = second.map Reading.plain := Except.ok.inj same
          cases first with
          | none =>
              cases second with
              | none => exact Or.inr (Or.inl ⟨rfl, rfl⟩)
              | some second => cases alike
          | some first =>
              cases second with
              | none => cases alike
              | some second =>
                  exact Or.inr (Or.inr ⟨first, second, rfl, rfl, Option.some.inj alike⟩)

/-- Told the same time, a text in any script of digits gets the verdict of the text in plain ones. -/
theorem verdict_interpretWith_plainDigits (told : Option Clock) (text : List Char)
    (format : Format) :
    (interpretWith (fun _ => .ok told) (plainDigits text) format).map Reading.verdict =
      (interpretWith (fun _ => .ok told) text format).map Reading.verdict := by
  unfold interpretWith inquire
  rw [all_isBlank_plainDigits, canonical_plainDigits]
  split
  · rfl
  · have same := recognize_plainDigits (canonical text)
    -- Only what is said of both texts matters from here on, not how the rules come to it.
    generalize recognize (plainDigits (canonical text)) = plain at same ⊢
    generalize recognize (canonical text) = read at same ⊢
    obtain ⟨fault, rfl, rfl⟩ | ⟨rfl, rfl⟩ | ⟨first, second, rfl, rfl, alike⟩ := plain_cases same
    · rfl
    · exact verdict_looseInquiry_plainDigits told text (canonical text) format
    · exact congrArg Except.ok (Reading.verdict_inFormat_of_plain_eq alike format)

/-! Answers -/

theorem recognize_eq_error_iff :
    (∃ fault, recognize text = .error fault) ↔
      ∃ captures, rules.findSome? (·.pattern.whole? text) = some captures ∧
        HasLongNumber captures := by
  cases decides : rules.findSome? (·.pattern.whole? text) with
  | none =>
      have unread : recognize text = .ok none :=
        recognize_eq_none_iff.mpr (List.findSome?_eq_none_iff.mp decides)
      rw [unread]
      exact iff_of_false nofun nofun
  | some captures =>
      simp only [Option.some.injEq, exists_eq_left']
      rcases recognize_of_whole? decides with ⟨stopped, long⟩ | ⟨⟨reading, recognized⟩, short⟩
      · exact iff_of_true stopped long
      · rw [recognized]
        exact iff_of_false nofun short

/-- The script of the digits in a text does not matter. With plain digits, rules say the same of it but
for the wording, or stop in the same way at a number that is too long, and so does the answer at a
time that is told. The schedules are written in plain digits. -/
theorem answers_ignore_digitScripts (text : List Char) :
    (recognize (plainDigits text)).map (Option.map Reading.plain) =
        (recognize text).map (Option.map Reading.plain) ∧
      ((∃ fault, recognize text = .error fault) ↔
        ∃ captures, rules.findSome? (·.pattern.whole? text) = some captures ∧
          HasLongNumber captures) ∧
      (∀ reading schedule, recognize text = .ok (some reading) →
        reading.schedule? = some schedule → HasPlainDigits schedule) ∧
      ∀ (told : Option Clock) (format : Format),
        (interpretWith (fun _ => .ok told) (plainDigits text) format).map Reading.verdict =
            (interpretWith (fun _ => .ok told) text format).map Reading.verdict ∧
          ((∃ reading, interpretWith (fun _ => .ok told) text format = .ok reading) ↔
            ¬ IsStopped told (canonical text)) ∧
          ∀ reading schedule, interpretWith (fun _ => .ok told) text format = .ok reading →
            reading.schedule? = some schedule → HasPlainDigits schedule := by
  refine ⟨recognize_plainDigits text, recognize_eq_error_iff, ?_, fun told format =>
    ⟨verdict_interpretWith_plainDigits told text format, interpretWith_eq_ok_iff rfl format, ?_⟩⟩
  · intro reading schedule recognized succeeded
    obtain ⟨line, rfl⟩ := exists_line_of_recognize recognized succeeded
    exact line.hasPlainDigits_text
  · exact fun reading schedule => hasPlainDigits_of_interpretWith

theorem answers_ignore_digitScripts_firstAtNine :
    let text := "١st of every month at ٩ pm".toList
    plainDigits text = "1st of every month at 9 pm".toList ∧
      (recognize text).toOption.join.map (·.interpretation) ≠
        (recognize (plainDigits text)).toOption.join.map (·.interpretation) ∧
      (recognize (plainDigits text)).map (Option.map Reading.plain) =
        (recognize text).map (Option.map Reading.plain) ∧
      ∃ reading, recognize text = .ok (some reading) ∧
        reading.schedule? = some "0 21 1 * *".toList ∧ HasPlainDigits "0 21 1 * *".toList := by
  obtain ⟨same, _, plain, _⟩ := answers_ignore_digitScripts "١st of every month at ٩ pm".toList
  have recognized : recognize "١st of every month at ٩ pm".toList =
      .ok (some (Phrase.dayOfMonth 1 ⟨21, 0⟩).reading) := by decide +kernel
  have scheduled : (Phrase.dayOfMonth 1 ⟨21, 0⟩).reading.schedule? =
      some "0 21 1 * *".toList := by decide
  exact ⟨by decide, by decide +kernel, same, _, recognized, scheduled,
    plain _ _ recognized scheduled⟩

/-- A turn of too many digits gets no answer in any script. -/
theorem recognize_longScriptTurn :
    ¬ ∀ text : List Char,
      recognize text = .ok none ∧ recognize (plainDigits text) = .ok none ∨
        ∃ reading other, recognize text = .ok (some reading) ∧
          recognize (plainDigits text) = .ok (some other) ∧ reading.plain = other.plain := by
  intro alike
  have digit : isDigit '١' = true := by decide
  have isNumeral : IsNumeral (List.replicate 4301 '١') := by
    refine ⟨List.ne_nil_of_length_pos (by rw [List.length_replicate]; decide), ?_⟩
    intro c member
    rw [List.eq_of_mem_replicate member, digit]
  obtain ⟨fault, stopped⟩ := recognize_longTurn isNumeral (by rw [List.length_replicate]; decide)
  rcases alike (List.replicate 4301 '١' ++ "th friday".toList) with ⟨unread, _⟩ | ⟨_, _, read, _⟩
  · rw [stopped] at unread
    cases unread
  · rw [stopped] at read
    cases read

end Recurrence
