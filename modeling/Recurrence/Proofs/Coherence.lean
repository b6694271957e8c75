import Recurrence.Proofs.Answers
import Recurrence.Proofs.Phrase.Turns
import Recurrence.Proofs.Readings

namespace Recurrence

/-! Coherent answers. Every text gets an answer, unless a number is too long to be read, and what the
parts of an answer say goes together. The teller of times is only asked about texts that no rule
reads. -/

open Crontab Phrase Pattern

variable {teller : TimeTeller} {text phrase : List Char} {format : Format} {reading : Reading}

/-! Readings -/

structure Reading.IsCoherent (reading : Reading) : Prop where
  exclusive : reading.schedule?.isSome ↔ reading.complaint? = none
  warned : reading.approximate = true ↔ reading.warning.isSome
  unsure : reading.approximate = true → reading.confidence ≠ .high
  failed : ∀ complaint, reading.complaint? = some complaint →
    reading.confidence = .low ∧ reading.warning = none ∧ reading.interpretation = none

theorem Reading.isCoherent_failure (complaint : List Char) : (failure complaint).IsCoherent where
  exclusive := by simp [failure, schedule?, complaint?, Except.toOption]
  warned := by simp [failure]
  unsure := nofun
  failed _ _ := ⟨rfl, rfl, rfl⟩

theorem Reading.isCoherent_success (schedule interpretation : List Char) (confidence : Confidence) :
    (success schedule interpretation confidence).IsCoherent where
  exclusive := by simp [success, schedule?, complaint?, Except.toOption]
  warned := by simp [success]
  unsure := nofun
  failed := nofun

theorem Reading.isCoherent_approximation (schedule warning interpretation : List Char)
    {confidence : Confidence} (unsure : confidence ≠ .high) :
    (approximation schedule warning interpretation confidence).IsCoherent where
  exclusive := by simp [approximation, schedule?, complaint?, Except.toOption]
  warned := by simp [approximation]
  unsure _ := unsure
  failed := nofun

/-- Phrases that a warning belongs to are never read with high confidence. -/
theorem Phrase.confidence_ne_high_of_warning? {phrase : Phrase} {warning : List Char}
    (warned : phrase.warning? = some warning) : phrase.confidence ≠ .high := by
  cases phrase with
  | days | lastWeekday | nthWeekday | lastDayOfMonth | weeks => exact nofun
  | _ => cases warned

theorem Phrase.isCoherent_reading (phrase : Phrase) : phrase.reading.IsCoherent := by
  unfold Phrase.reading
  split
  · rename_i warning warned
    exact Reading.isCoherent_approximation _ _ _ (confidence_ne_high_of_warning? warned)
  · exact Reading.isCoherent_success _ _ _

theorem ComesTo.isCoherent (comes : ComesTo teller text reading) : reading.IsCoherent := by
  cases comes with
  | failure complaint => exact Reading.isCoherent_failure complaint
  | recognized found => exact Phrase.isCoherent_reading _
  | weekdays unread told named => exact Reading.isCoherent_success _ _ _
  | days unread told bounds => exact Phrase.isCoherent_reading _
  | daily unread told => exact Reading.isCoherent_success _ _ _

/-- Two readings that differ in the layout of their schedules at most. -/
structure Reading.LaidOutAs (reading six : Reading) : Prop where
  failed : ∀ complaint, reading.complaint? = some complaint → six = reading
  succeeded : ∀ schedule, reading.schedule? = some schedule →
    six = { reading with outcome := .ok ("0 ".toList ++ schedule) }

theorem Reading.laidOutAs_withSeconds (reading : Reading) : reading.LaidOutAs reading.withSeconds := by
  obtain ⟨outcome, confidence, approximate, warning, interpretation, agrees⟩ := reading
  cases outcome with
  | error complaint => exact ⟨fun _ _ => rfl, nofun⟩
  | ok schedule =>
      refine ⟨nofun, fun found same => ?_⟩
      cases same
      rfl

theorem Reading.IsCoherent.withSeconds (coherent : reading.IsCoherent) :
    reading.withSeconds.IsCoherent := by
  have same := reading.laidOutAs_withSeconds
  cases outcome : reading.outcome with
  | error complaint =>
      rw [same.failed complaint (by rw [complaint?, outcome])]
      exact coherent
  | ok schedule =>
      rw [same.succeeded schedule (by rw [schedule?, outcome]; rfl)]
      exact ⟨by simp [schedule?, complaint?, Except.toOption], coherent.warned, coherent.unsure,
        fun complaint failed => by cases failed⟩

theorem Reading.IsCoherent.inFormat (coherent : reading.IsCoherent) (format : Format) :
    (reading.inFormat format).IsCoherent := by
  cases format with
  | five => exact coherent
  | six => exact coherent.withSeconds

theorem isCoherent_of_interpretWith (read : interpretWith teller text format = .ok reading) :
    reading.IsCoherent := by
  obtain ⟨base, comes, rfl⟩ := exists_comesTo_of_interpretWith read
  exact comes.isCoherent.inFormat format

/-! Layouts -/

theorem Inquiry.map_map {inquiry : Inquiry α} {f : α → β} {g : β → γ} :
    (inquiry.map f).map g = inquiry.map fun result => g (f result) := by
  cases inquiry with
  | settled result => rfl
  | timeOf text resume =>
      refine congrArg (timeOf text) (funext fun clock => ?_)
      dsimp only
      cases resume clock <;> rfl

theorem Inquiry.answer_map {inquiry : Inquiry α} {f : α → β} :
    (inquiry.map f).answer teller = (inquiry.answer teller).map f := by
  cases inquiry with
  | settled result => rfl
  | timeOf text resume =>
      simp only [map, answer]
      cases teller text <;> rfl

theorem inquire_six (text : List Char) :
    inquire text .six = (inquire text .five).map (Inquiry.map Reading.withSeconds) := by
  have laidOut (reading : Option Reading) :
      (reading.map (·.inFormat .six)).getD (unreadable text) =
        ((reading.map (·.inFormat .five)).getD (unreadable text)).withSeconds := by
    cases reading <;> rfl
  unfold inquire
  split
  · rfl
  · cases recognize (canonical text) with
    | error fault => rfl
    | ok found =>
        cases found with
        | some reading => rfl
        | none => simp only [laidOut, Except.map, Inquiry.map_map]

theorem interpretWith_six (teller : TimeTeller) (text : List Char) :
    interpretWith teller text .six = (interpretWith teller text .five).map Reading.withSeconds := by
  unfold interpretWith
  rw [inquire_six]
  cases inquire text .five with
  | error fault => rfl
  | ok inquiry => exact Inquiry.answer_map

/-! Questions -/

theorem inquire_of_blank (blank : text.all Text.isBlank) (format : Format) :
    ∃ reading, inquire text format = .ok (.settled reading) := by
  rw [inquire, if_pos blank]
  exact ⟨_, rfl⟩

theorem inquire_of_recognize (solid : ¬ text.all Text.isBlank) (format : Format) :
    (∀ fault, recognize (canonical text) = .error fault →
      inquire text format = .error (.numeralTooLong fault)) ∧
    (∀ reading, recognize (canonical text) = .ok (some reading) →
      inquire text format = .ok (.settled (reading.inFormat format))) ∧
    (recognize (canonical text) = .ok none → ∃ result : Option Reading → Reading,
      inquire text format = .ok ((looseInquiry text (canonical text)).map result)) := by
  rw [inquire, if_neg solid]
  refine ⟨fun fault stopped => ?_, fun reading recognized => ?_, fun unread => ?_⟩
  · rw [stopped]
  · rw [recognized]
  · rw [unread]
    exact ⟨_, rfl⟩

theorem questions_of_unread (solid : ¬ text.all Text.isBlank)
    (unread : recognize (canonical text) = .ok none) (format : Format) :
    ∃ inquiry, inquire text format = .ok inquiry ∧ inquiry.questions = [text] := by
  obtain ⟨result, asked⟩ := (inquire_of_recognize solid format).2.2 unread
  exact ⟨_, asked, rfl⟩

theorem questions_of_settled {inquiry : Inquiry Reading} (asked : inquire text format = .ok inquiry)
    (settled : text.all Text.isBlank ∨ recognize (canonical text) ≠ .ok none) :
    inquiry.questions = [] := by
  by_cases blank : text.all Text.isBlank
  · obtain ⟨reading, refused⟩ := inquire_of_blank blank format
    rw [refused] at asked
    cases asked
    rfl
  · obtain ⟨ofStopped, ofRecognized, _⟩ := inquire_of_recognize blank format
    cases recognized : recognize (canonical text) with
    | error fault =>
        rw [ofStopped fault recognized] at asked
        cases asked
    | ok found =>
        cases found with
        | some reading =>
            rw [ofRecognized reading recognized] at asked
            cases asked
            rfl
        | none => exact absurd recognized (settled.resolve_left blank)

/-! Numbers that are too long -/

/-- A number on the way to the answer is too long to be read: one of the rule that decides or, where
no rule does, the days of a step at a time that is told. -/
def IsStopped (told : Option Clock) (phrase : List Char) : Prop :=
  match rules.findSome? (·.pattern.whole? phrase) with
  | some captures => HasLongNumber captures
  | none => told.isSome ∧ findWeekdays phrase = [] ∧
      ∃ digits ∈ dayInterval? phrase, Text.maxDigits < digits.length

theorem Phrase.findSome?_reading?_of_whole? {table : List Rule} {captures : Captures Slot}
    (decides : table.findSome? (·.pattern.whole? phrase) = some captures) :
    ∃ rule ∈ table, rule.pattern.whole? phrase = some captures ∧
      table.findSome? (·.reading? phrase) = some (rule.sense captures) := by
  induction table with
  | nil => cases decides
  | cons rule others ih =>
      rw [List.findSome?_cons] at decides ⊢
      cases read : rule.pattern.whole? phrase with
      | some found =>
          simp only [read, Option.some.injEq] at decides
          subst decides
          exact ⟨rule, List.mem_cons_self, read, by simp only [Rule.reading?, read, Option.map_some]⟩
      | none =>
          simp only [read] at decides
          obtain ⟨deciding, member, readDeciding, sense⟩ := ih decides
          refine ⟨deciding, List.mem_cons_of_mem _ member, readDeciding, ?_⟩
          simpa only [Rule.reading?, read, Option.map_none] using sense

theorem Phrase.recognize_of_whole? {captures : Captures Slot}
    (decides : rules.findSome? (·.pattern.whole? phrase) = some captures) :
    (∃ fault, recognize phrase = .error fault) ∧ HasLongNumber captures ∨
      (∃ reading, recognize phrase = .ok (some reading)) ∧ ¬ HasLongNumber captures := by
  obtain ⟨rule, inRules, read, first⟩ := findSome?_reading?_of_whole? decides
  have stops := (rules_areSound rule inRules).stops captures (Rule.captured_of_whole? inRules read)
  rw [← stops, recognize, first]
  cases sense : rule.sense captures with
  | ok phrase => exact Or.inr ⟨⟨_, rfl⟩, not_stopsAtNumber_ok _⟩
  | error fault =>
      cases fault with
      | outOfRange fault =>
          refine Or.inr ⟨⟨_, rfl⟩, ?_⟩
          rintro ⟨_, stopped⟩
          cases stopped
      | numeralTooLong fault => exact Or.inl ⟨⟨_, rfl⟩, fault, rfl⟩

theorem exists_map_eq_error_iff {x : Except ε α} {f : α → β} :
    (∃ fault, x.map f = .error fault) ↔ ∃ fault, x = .error fault := by
  cases x <;> simp [Except.map]

theorem Phrase.readLoosely_eq_error_iff {clock : Clock} :
    (∃ fault, readLoosely phrase clock = .error fault) ↔
      findWeekdays phrase = [] ∧ ∃ digits ∈ dayInterval? phrase, Text.maxDigits < digits.length := by
  unfold readLoosely
  split
  · rename_i named
    exact iff_of_false nofun fun unnamed => named unnamed.1
  · rename_i unnamed
    rw [not_ne_iff] at unnamed
    cases dayInterval? phrase with
    | none =>
        refine iff_of_false nofun fun offered => ?_
        obtain ⟨_, _, none, _⟩ := offered
        cases none
    | some digits =>
        simp only [unnamed, true_and, Option.mem_def, Option.some.injEq, exists_eq_left']
        rw [exists_map_eq_error_iff, dayIntervalReading, exists_map_eq_error_iff,
          Text.readDigits_eq_error_iff]

theorem isStopped_iff_of_unread {told : Option Clock} (unread : recognize phrase = .ok none) :
    IsStopped told phrase ↔ told.isSome ∧ findWeekdays phrase = [] ∧
      ∃ digits ∈ dayInterval? phrase, Text.maxDigits < digits.length := by
  have noRule : rules.findSome? (·.pattern.whole? phrase) = none :=
    List.findSome?_eq_none_iff.mpr (recognize_eq_none_iff.mp unread)
  rw [IsStopped, noRule]

theorem isStopped_iff_of_read {told : Option Clock} (read : recognize phrase ≠ .ok none) :
    IsStopped told phrase ↔ ∃ fault, recognize phrase = .error fault := by
  cases decides : rules.findSome? (·.pattern.whole? phrase) with
  | none => exact absurd (recognize_eq_none_iff.mpr (List.findSome?_eq_none_iff.mp decides)) read
  | some captures =>
      rw [IsStopped, decides]
      obtain ⟨stopped, long⟩ | ⟨⟨reading, recognized⟩, short⟩ := recognize_of_whole? decides
      · exact iff_of_true long stopped
      · rw [recognized]
        exact iff_of_false short nofun

theorem not_isStopped_of_blank (blank : text.all Text.isBlank) (told : Option Clock) :
    ¬ IsStopped told (canonical text) := by
  rw [canonical_of_blank (List.all_eq_true.mp blank), isStopped_iff_of_unread recognize_nil]
  rintro ⟨_, _, digits, offered, _⟩
  have noInterval : dayInterval? [] = none := by decide
  rw [noInterval] at offered
  cases offered

theorem exists_answer_looseInquiry_iff {told : Option Clock} (telling : teller text = .ok told)
    {f : Option Reading → α} :
    (∃ result, ((looseInquiry text phrase).map f).answer teller = .ok result) ↔
      ¬ (told.isSome ∧ findWeekdays phrase = [] ∧
        ∃ digits ∈ dayInterval? phrase, Text.maxDigits < digits.length) := by
  rw [Inquiry.answer_map, looseInquiry, Inquiry.answer, telling]
  cases told with
  | none =>
      refine iff_of_true ⟨_, rfl⟩ ?_
      rintro ⟨isTold, _⟩
      cases isTold
  | some clock =>
      rw [← @Phrase.readLoosely_eq_error_iff phrase clock]
      simp only [bind, Except.bind, Option.isSome_some, true_and]
      cases readLoosely phrase clock with
      | error fault => exact iff_of_false (by rintro ⟨_, answered⟩; cases answered) (by simp)
      | ok found => exact iff_of_true ⟨_, rfl⟩ (by simp)

theorem interpretWith_eq_ok_iff {told : Option Clock} (telling : teller text = .ok told)
    (format : Format) :
    (∃ reading, interpretWith teller text format = .ok reading) ↔
      ¬ IsStopped told (canonical text) := by
  rw [interpretWith]
  by_cases blank : text.all Text.isBlank
  · obtain ⟨reading, refused⟩ := inquire_of_blank blank format
    rw [refused]
    exact iff_of_true ⟨reading, rfl⟩ (not_isStopped_of_blank blank told)
  · obtain ⟨ofStopped, ofRecognized, ofUnread⟩ := inquire_of_recognize blank format
    by_cases unread : recognize (canonical text) = .ok none
    · obtain ⟨result, asked⟩ := ofUnread unread
      rw [isStopped_iff_of_unread unread, asked]
      exact exists_answer_looseInquiry_iff telling
    · rw [isStopped_iff_of_read unread]
      cases recognized : recognize (canonical text) with
      | error fault =>
          rw [ofStopped fault recognized]
          refine iff_of_false ?_ (not_not_intro ⟨fault, rfl⟩)
          rintro ⟨_, answered⟩
          cases answered
      | ok found =>
          cases found with
          | none => exact absurd recognized unread
          | some reading =>
              rw [ofRecognized reading recognized]
              refine iff_of_true ⟨_, rfl⟩ ?_
              rintro ⟨_, stopped⟩
              cases stopped

/-! Answers -/

/-- What is there to be read of a phrase can be read: rules capture what their senses look up, the
weekdays that are found have a meaning, and the days of a step are given in digits. -/
structure Phrase.IsReadable (phrase : List Char) : Prop where
  sound : ∀ rule ∈ rules, rule.IsSound
  captured : ∀ rule ∈ rules, ∀ captures, rule.pattern.whole? phrase = some captures →
    rule.Captured captures
  weekdays : ∀ found ∈ weekdayMention.occurrences phrase,
    (Weekday.ofWord? (found.captures.text .weekday)).isSome
  interval : ∀ digits, dayInterval? phrase = some digits → IsNumeral digits

/-- Every text gets an answer in both layouts, unless a number is too long to be read. The answers are
coherent and differ in their layout only, and the teller is asked exactly once about the text as it
was written if no rule reads it, and never otherwise. -/
theorem interpretWith_coherent (told : List Char → Option Clock) (text : List Char) :
    Phrase.IsReadable (canonical text) ∧
    (∀ format, (∃ reading, interpretWith (fun text => .ok (told text)) text format = .ok reading) ↔
      ¬ IsStopped (told text) (canonical text)) ∧
    (∀ format reading, interpretWith (fun text => .ok (told text)) text format = .ok reading →
      reading.IsCoherent) ∧
    (∀ reading, interpretWith (fun text => .ok (told text)) text .five = .ok reading →
      ∃ six, interpretWith (fun text => .ok (told text)) text .six = .ok six ∧
        reading.LaidOutAs six) ∧
    ∀ format,
      (¬ text.all Text.isBlank → recognize (canonical text) = .ok none →
        ∃ inquiry, inquire text format = .ok inquiry ∧ inquiry.questions = [text]) ∧
      ∀ inquiry, inquire text format = .ok inquiry →
        text.all Text.isBlank ∨ recognize (canonical text) ≠ .ok none → inquiry.questions = [] := by
  refine ⟨?_, interpretWith_eq_ok_iff rfl, fun format reading => isCoherent_of_interpretWith, ?_, ?_⟩
  · exact ⟨rules_areSound, fun rule inRules captures => Rule.captured_of_whole? inRules,
      fun found => isSome_ofWord?_of_mem_mentions, fun digits => isNumeral_of_dayInterval?⟩
  · intro reading read
    refine ⟨reading.withSeconds, ?_, reading.laidOutAs_withSeconds⟩
    rw [interpretWith_six, read]
    rfl
  · exact fun format => ⟨fun solid unread => questions_of_unread solid unread format,
      fun inquiry => questions_of_settled⟩

theorem interpretWith_coherent_mondays :
    (∃ reading, interpretWith (fun _ => .ok (some ⟨9, 0⟩)) "remind me mondays".toList .six =
      .ok reading ∧ reading.IsCoherent) ∧
    ∃ inquiry, inquire "remind me mondays".toList .six = .ok inquiry ∧
      inquiry.questions = ["remind me mondays".toList] := by
  obtain ⟨_, answers, coherent, _, asks⟩ :=
    interpretWith_coherent (fun _ => some ⟨9, 0⟩) "remind me mondays".toList
  have unread : recognize (canonical "remind me mondays".toList) = .ok none := by decide
  have named : findWeekdays (canonical "remind me mondays".toList) ≠ [] := by decide
  have goesOn : ¬ IsStopped (some ⟨9, 0⟩) (canonical "remind me mondays".toList) := by
    rw [isStopped_iff_of_unread unread]
    exact fun stopped => named stopped.2.1
  obtain ⟨reading, read⟩ := (answers .six).mpr goesOn
  exact ⟨⟨reading, read, coherent .six reading read⟩, (asks .six).1 (by decide) unread⟩

theorem recognize_longTurn {numeral : List Char} (isNumeral : IsNumeral numeral)
    (long : Text.maxDigits < numeral.length) :
    ∃ fault, recognize (numeral ++ "th friday".toList) = .error fault := by
  obtain ⟨captures, read⟩ := Option.isSome_iff_exists.mp (isSome_turnRule isNumeral)
  have captured := Rule.captured_of_whole? turnRule_mem_rules read
  have stops : StopsAtNumber (turnRule.sense captures) := by
    rw [(rules_areSound _ turnRule_mem_rules).stops captures captured]
    exact Or.inr (by rwa [turn_of_turnRule isNumeral read])
  obtain ⟨fault, stopped⟩ := stops
  have reading : turnRule.reading? (numeral ++ "th friday".toList) =
      some (.error (.numeralTooLong fault)) := by
    rw [Rule.reading?, read, Option.map_some, stopped]
  have said := recognize_plain_of_reading? turnRule_mem_rules reading
  cases recognized : recognize (numeral ++ "th friday".toList) with
  | error found => exact ⟨found, rfl⟩
  | ok found =>
      rw [recognized] at said
      cases said

/-- A turn of too many digits leaves a text without an answer. -/
theorem interpretWith_longTurn :
    ¬ ∀ (told : List Char → Option Clock) (text : List Char) (format : Format),
      ∃ reading, interpretWith (fun text => .ok (told text)) text format = .ok reading := by
  intro answers
  have plain : ∀ c ∈ List.replicate 4301 '1', Text.isPlainDigit c = true := by
    intro c member
    rw [List.eq_of_mem_replicate member]
    decide
  have nonempty : List.replicate 4301 '1' ≠ [] :=
    List.ne_nil_of_length_pos (by rw [List.length_replicate]; decide)
  have isNumeral : IsNumeral (List.replicate 4301 '1') :=
    ⟨nonempty, fun c member => Text.isDigit_of_isPlainDigit (plain c member)⟩
  obtain ⟨fault, stopped⟩ := recognize_longTurn isNumeral (by rw [List.length_replicate]; decide)
  have answered := answers (fun _ => none) (List.replicate 4301 '1' ++ "th friday".toList) .five
  rw [interpretWith_eq_ok_iff rfl, canonical_turn nonempty plain,
    isStopped_iff_of_read (by rw [stopped]; nofun)] at answered
  exact answered ⟨fault, stopped⟩

end Recurrence
