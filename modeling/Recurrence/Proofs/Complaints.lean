import Recurrence.Proofs.Answers

namespace Recurrence

/-! What answers complain about. A text that cannot be read is quoted. Apart from that, a complaint
depends on the canonical form, on whether the text is blank, and, where no rule reads the canonical
form, on whether a time of day is told of the text. Which time it is makes no difference. -/

open Crontab Phrase

variable {first second text phrase message : List Char} {reading : Reading}

/-- A complaint without the text that it quotes. -/
inductive Complaint where
  | unreadable
  | about (message : List Char)

def Reading.complaintAbout? (text : List Char) (reading : Reading) : Option Complaint :=
  reading.complaint?.map fun message =>
    if (unreadable text).complaint? = some message then .unreadable else .about message

/-- What the answer to a text complains about, if there is an answer. -/
def complaintAbout? (text : List Char) (format : Format) : Except Fault (Option Complaint) :=
  (interpret text format).map (Reading.complaintAbout? text)

/-- The complaint about a phrase that is read loosely. -/
def looseComplaint? (phrase : List Char) : Option Clock → Except Fault (Option Complaint)
  | none => .ok (some .unreadable)
  | some clock =>
      match readLoosely phrase clock with
      | .ok (some reading) => .ok (reading.complaint?.map .about)
      | .ok none => .ok (some .unreadable)
      | .error fault => .error (.numeralTooLong fault)

/-- The complaint about a text that has a canonical form, and of which a time of day is told. -/
def complaintOf? (phrase : List Char) (told : Except Fault (Option Clock)) :
    Except Fault (Option Complaint) :=
  match recognize phrase with
  | .ok (some reading) => .ok (reading.complaint?.map .about)
  | .ok none => told.bind (looseComplaint? phrase)
  | .error fault => .error (.numeralTooLong fault)

/-- Whether a phrase has parts that are read loosely once a time of day is known. -/
def HasLooseParts (phrase : List Char) : Prop :=
  findWeekdays phrase ≠ [] ∨ (dayInterval? phrase).isSome ∨ dailyCue.occurs phrase = true

/-! Messages -/

theorem head?_of_isPrefix {opening : String} {c : Char} (opens : opening.toList <+: message)
    (starts : opening.toList.head? = some c) : message.head? = some c := by
  obtain ⟨rest, rfl⟩ := opens
  rw [List.head?_append, starts]
  rfl

theorem Phrase.RangeFault.head?_message (fault : RangeFault) :
    ∃ c ∈ "DHMW".toList, fault.message.head? = some c := by
  cases fault with
  | hourOfHalf meridiem =>
      have opens := List.prefix_append "Hour must be between 1 and 12 when using ".toList meridiem
      exact ⟨'H', by decide, head?_of_isPrefix opens (by decide)⟩
  | dayOfYearlyMonth month =>
      have opens : "Day must be between 1 and ".toList <+:
          (RangeFault.dayOfYearlyMonth month).message :=
        ((List.prefix_append _ _).trans (List.prefix_append _ _)).trans (List.prefix_append _ _)
      exact ⟨'D', by decide, head?_of_isPrefix opens (by decide)⟩
  | _ =>
      refine ⟨_, ?_, rfl⟩
      decide

theorem head?_of_unreadable (quoted : (unreadable text).complaint? = some message) :
    message.head? = some 'C' := by
  have opens : "Could not parse \"".toList <+: message := by
    cases quoted
    simp only [List.append_assoc]
    exact List.prefix_append _ _
  exact head?_of_isPrefix opens (by decide)

theorem Phrase.RangeFault.not_unreadable (fault : RangeFault) (text : List Char) :
    (unreadable text).complaint? ≠ some fault.message := by
  intro quoted
  obtain ⟨c, listed, starts⟩ := fault.head?_message
  cases starts.symm.trans (head?_of_unreadable quoted)
  exact absurd listed (by decide)

/-! Readings -/

theorem Reading.complaint?_inFormat (reading : Reading) (format : Format) :
    (reading.inFormat format).complaint? = reading.complaint? := by
  cases format with
  | five => rfl
  | six => cases said : reading.outcome <;> simp [inFormat, withSeconds, complaint?, said, Except.map]

theorem Phrase.complaint?_reading (phrase : Phrase) : phrase.reading.complaint? = none := by
  unfold reading
  split <;> rfl

/-- All that a reading may complain about is a number out of its range. -/
def Reading.BlamesRange (reading : Reading) : Prop :=
  ∀ message ∈ reading.complaint?, ∃ fault : RangeFault, fault.message = message

theorem Reading.blamesRange_of_none (none : reading.complaint? = none) : reading.BlamesRange := by
  intro message complains
  rw [none] at complains
  cases complains

theorem Reading.BlamesRange.complaintAbout?_inFormat (blames : reading.BlamesRange) (text : List Char)
    (format : Format) :
    (reading.inFormat format).complaintAbout? text = reading.complaint?.map .about := by
  rw [Reading.complaintAbout?, reading.complaint?_inFormat format]
  cases complains : reading.complaint? with
  | none => rfl
  | some message =>
      obtain ⟨fault, rfl⟩ := blames message complains
      rw [Option.map_some, if_neg (fault.not_unreadable text)]
      rfl

theorem blamesRange_of_recognize (recognized : recognize phrase = .ok (some reading)) :
    reading.BlamesRange := by
  unfold recognize at recognized
  split at recognized
  · rename_i sense _
    cases sense with
    | ok phrase =>
        cases recognized
        exact Reading.blamesRange_of_none phrase.complaint?_reading
    | error fault =>
        cases fault with
        | outOfRange fault =>
            cases recognized
            rintro message ⟨⟩
            exact ⟨fault, rfl⟩
        | numeralTooLong fault => cases recognized
  · cases recognized

/-- What becomes of a phrase that is read loosely, at whatever time of day. -/
inductive LooseOutcome (phrase : List Char) : Prop
  | scheduled (parts : HasLooseParts phrase) (read : ∀ clock, ∃ reading,
      readLoosely phrase clock = .ok (some reading) ∧ reading.complaint? = none)
  | refused (parts : HasLooseParts phrase) (read : ∀ clock,
      readLoosely phrase clock = .ok (some (.failure RangeFault.dayCount.message)))
  | stopped (fault : Text.NumeralTooLong) (parts : HasLooseParts phrase) (read : ∀ clock,
      readLoosely phrase clock = .error fault)
  | unread (noParts : ¬ HasLooseParts phrase) (read : ∀ clock, readLoosely phrase clock = .ok none)

theorem looseOutcome (phrase : List Char) : LooseOutcome phrase := by
  by_cases named : findWeekdays phrase = []
  · cases interval : dayInterval? phrase with
    | none =>
        by_cases cue : dailyCue.occurs phrase = true
        · refine .scheduled (.inr (.inr cue)) fun clock => ⟨dailyReading clock, ?_, rfl⟩
          simp [readLoosely, named, interval, cue]
        · refine .unread (by simp [HasLooseParts, named, interval, cue]) fun clock => ?_
          simp [readLoosely, named, interval, cue]
    | some digits =>
        have parts : HasLooseParts phrase := .inr (.inl (by rw [interval]; rfl))
        cases number : Text.readDigits digits with
        | error fault =>
            refine .stopped fault parts fun clock => ?_
            simp [readLoosely, named, interval, dayIntervalReading, number, Except.map]
        | ok n =>
            by_cases bounds : 1 ≤ n ∧ n ≤ 31
            · refine .scheduled parts fun clock => ⟨_, ?_, (Phrase.days n clock).complaint?_reading⟩
              simp [readLoosely, named, interval, dayIntervalReading, number, Except.map, bounds]
            · refine .refused parts fun clock => ?_
              simp only [readLoosely, named, interval, dayIntervalReading, number, Except.map,
                if_neg bounds]
              rfl
  · refine .scheduled (.inl named) fun clock =>
      ⟨weekdaysReading (findWeekdays phrase) clock, ?_, rfl⟩
    simp [readLoosely, named]

theorem blamesRange_of_readLoosely {clock : Clock}
    (loose : readLoosely phrase clock = .ok (some reading)) : reading.BlamesRange := by
  cases looseOutcome phrase with
  | scheduled _ read =>
      obtain ⟨found, same, silent⟩ := read clock
      cases same.symm.trans loose
      exact Reading.blamesRange_of_none silent
  | refused _ read =>
      cases (read clock).symm.trans loose
      rintro message ⟨⟩
      exact ⟨.dayCount, rfl⟩
  | stopped fault _ read => cases (read clock).symm.trans loose
  | unread _ read => cases (read clock).symm.trans loose

/-! Answers -/

theorem complaintAbout?_of_blank (blank : text.all Text.isBlank) (format : Format) :
    complaintAbout? text format =
      .ok (some (.about "Please enter a schedule description".toList)) := by
  rw [complaintAbout?, interpret, interpretWith, inquire, if_pos blank]
  refine congrArg (fun complaint => Except.ok (some complaint)) (if_neg fun quoted => ?_)
  exact absurd (head?_of_unreadable quoted) (by decide)

theorem Reading.complaintAbout?_unreadable (text : List Char) :
    (unreadable text).complaintAbout? text = some .unreadable := by
  simp [Reading.complaintAbout?, unreadable, failure, complaint?]

theorem complaintAbout?_answer_looseInquiry (teller : TimeTeller) (text phrase : List Char)
    (format : Format) :
    (((looseInquiry text phrase).map fun reading =>
        (reading.map (·.inFormat format)).getD (unreadable text)).answer teller).map
          (Reading.complaintAbout? text) = (teller text).bind (looseComplaint? phrase) := by
  have unread : Except.ok ((unreadable text).complaintAbout? text) =
      (.ok (some .unreadable) : Except Fault _) := by rw [Reading.complaintAbout?_unreadable]
  simp only [looseInquiry, Inquiry.map, Inquiry.answer]
  cases teller text with
  | error fault => rfl
  | ok told =>
      cases told with
      | none => exact unread
      | some clock =>
          simp only [bind, Except.bind, looseComplaint?]
          cases loose : readLoosely phrase clock with
          | error fault => rfl
          | ok found =>
              cases found with
              | none => exact unread
              | some reading =>
                  have blames := blamesRange_of_readLoosely loose
                  exact congrArg Except.ok (blames.complaintAbout?_inFormat text format)

/-- What an answer complains about depends on the canonical form and the told time alone. -/
theorem complaintAbout?_of_solid (solid : ¬ text.all Text.isBlank) (format : Format) :
    complaintAbout? text format = complaintOf? (canonical text) (mentionedTime text) := by
  rw [complaintAbout?, interpret, interpretWith, inquire, if_neg solid, complaintOf?]
  cases recognized : recognize (canonical text) with
  | error fault => rfl
  | ok found =>
      cases found with
      | some reading =>
          have blames := blamesRange_of_recognize recognized
          exact congrArg Except.ok (blames.complaintAbout?_inFormat text format)
      | none =>
          exact complaintAbout?_answer_looseInquiry mentionedTime text (canonical text) format

/-! Texts with the same canonical form -/

theorem mentionedTime_eq_error {fault : Fault} (failed : mentionedTime text = .error fault) :
    ∃ reason, fault = .unsplittable reason := by
  unfold mentionedTime at failed
  split at failed
  · cases failed
  · cases failed
    exact ⟨_, rfl⟩

theorem exists_looseComplaint? (phrase : List Char) : ∃ complaint,
    (∀ clock, looseComplaint? phrase (some clock) = complaint) ∧
      (complaint = .ok (some .unreadable) ↔ ¬ HasLooseParts phrase) := by
  cases looseOutcome phrase with
  | scheduled parts read =>
      refine ⟨.ok none, fun clock => ?_, iff_of_false nofun (not_not_intro parts)⟩
      obtain ⟨reading, found, silent⟩ := read clock
      rw [looseComplaint?, found]
      exact congrArg Except.ok (congrArg (Option.map Complaint.about) silent)
  | refused parts read =>
      refine ⟨.ok (some (.about RangeFault.dayCount.message)), fun clock => ?_,
        iff_of_false nofun (not_not_intro parts)⟩
      rw [looseComplaint?, read clock]
      rfl
  | stopped fault parts read =>
      refine ⟨.error (.numeralTooLong fault), fun clock => ?_,
        iff_of_false nofun (not_not_intro parts)⟩
      rw [looseComplaint?, read clock]
  | unread noParts read =>
      refine ⟨.ok (some .unreadable), fun clock => ?_, iff_of_true rfl noParts⟩
      rw [looseComplaint?, read clock]

theorem looseComplaint?_eq_iff {first second : Option Clock} :
    looseComplaint? phrase first = looseComplaint? phrase second ↔
      first.isSome = second.isSome ∨ ¬ HasLooseParts phrase := by
  obtain ⟨complaint, atAnyTime, unreadable_iff⟩ := exists_looseComplaint? phrase
  have untold : looseComplaint? phrase none = .ok (some .unreadable) := rfl
  cases first with
  | none =>
      cases second with
      | none => simp
      | some clock => simp [atAnyTime, untold, ← unreadable_iff, eq_comm]
  | some clock =>
      cases second with
      | none => simp [atAnyTime, untold, ← unreadable_iff]
      | some other => simp [atAnyTime]

theorem looseComplaint?_ne_unsplittable (phrase : List Char) (told : Option Clock)
    (reason : Mention.Unsplittable) :
    looseComplaint? phrase told ≠ .error (.unsplittable reason) := by
  intro stopped
  unfold looseComplaint? at stopped
  repeat' split at stopped
  all_goals cases stopped

theorem bind_looseComplaint?_eq_iff (phrase first second : List Char) :
    (mentionedTime first).bind (looseComplaint? phrase) =
        (mentionedTime second).bind (looseComplaint? phrase) ↔
      (mentionedTime first).map Option.isSome = (mentionedTime second).map Option.isSome ∨
        ¬ HasLooseParts phrase ∧ (mentionedTime first).isOk ∧ (mentionedTime second).isOk := by
  cases ofFirst : mentionedTime first with
  | error fault =>
      obtain ⟨reason, rfl⟩ := mentionedTime_eq_error ofFirst
      cases mentionedTime second with
      | error other => simp [Except.bind, Except.map, Except.isOk, Except.toBool]
      | ok told =>
          have differ := (looseComplaint?_ne_unsplittable phrase told reason).symm
          simp [Except.bind, Except.map, Except.isOk, Except.toBool, differ]
  | ok told =>
      cases ofSecond : mentionedTime second with
      | error fault =>
          obtain ⟨reason, rfl⟩ := mentionedTime_eq_error ofSecond
          have differ := looseComplaint?_ne_unsplittable phrase told reason
          simp [Except.bind, Except.map, Except.isOk, Except.toBool, differ]
      | ok other =>
          simp [Except.bind, Except.map, Except.isOk, Except.toBool, looseComplaint?_eq_iff]

/-- Texts that are not blank and have the same canonical form are complained about alike, apart from
what is quoted of them, exactly if a rule reads the form, or the times that are told come to the same
(one of both, none of both, or the same fault), or they come to no fault and the form has no parts
for a loose reading. -/
theorem complaintAbout?_eq_iff (same : canonical first = canonical second)
    (firstSolid : ¬ first.all Text.isBlank) (secondSolid : ¬ second.all Text.isBlank)
    (format : Format) :
    complaintAbout? first format = complaintAbout? second format ↔
      (∃ rule ∈ rules, (rule.pattern.whole? (canonical first)).isSome) ∨
        (mentionedTime first).map Option.isSome = (mentionedTime second).map Option.isSome ∨
        ¬ HasLooseParts (canonical first) ∧ (mentionedTime first).isOk ∧
          (mentionedTime second).isOk := by
  rw [complaintAbout?_of_solid firstSolid, complaintAbout?_of_solid secondSolid, ← same,
    ← recognize_ne_none_iff]
  by_cases unread : recognize (canonical first) = .ok none
  · simp only [complaintOf?, unread, ne_eq, not_true_eq_false, false_or]
    exact bind_looseComplaint?_eq_iff (canonical first) first second
  · refine iff_of_true ?_ (Or.inl unread)
    unfold complaintOf?
    split
    · rfl
    · rename_i recognized
      exact absurd recognized unread
    · rfl

theorem exists_fault_of_complaintOf? {told : Except Fault (Option Clock)}
    (complains : complaintOf? phrase told = .ok (some (.about message))) :
    ∃ fault : RangeFault, fault.message = message := by
  have blamed {reading : Reading} (blames : reading.BlamesRange)
      (said : reading.complaint?.map .about = some (Complaint.about message)) :
      ∃ fault : RangeFault, fault.message = message := by
    obtain ⟨other, complains, same⟩ := Option.map_eq_some_iff.mp said
    cases same
    exact blames message complains
  unfold complaintOf? at complains
  split at complains
  · rename_i recognized
    exact blamed (blamesRange_of_recognize recognized) (Except.ok.inj complains)
  · obtain ⟨found, _, complains⟩ := bind_eq_ok_iff.mp complains
    unfold looseComplaint? at complains
    split at complains
    · cases complains
    · split at complains
      · rename_i loose
        exact blamed (blamesRange_of_readLoosely loose) (Except.ok.inj complains)
      · cases complains
      · cases complains
  · cases complains

/-- Only blank texts are complained about as such. -/
theorem complaintAbout?_eq_iff_of_blank (blank : first.all Text.isBlank) (format : Format) :
    complaintAbout? first format = complaintAbout? second format ↔ second.all Text.isBlank := by
  rw [complaintAbout?_of_blank blank]
  by_cases solid : second.all Text.isBlank
  · exact iff_of_true (complaintAbout?_of_blank solid format).symm solid
  · refine iff_of_false (fun same => ?_) solid
    rw [complaintAbout?_of_solid solid] at same
    obtain ⟨fault, message⟩ := exists_fault_of_complaintOf? same.symm
    obtain ⟨c, listed, starts⟩ := fault.head?_message
    rw [message] at starts
    cases starts
    exact absurd listed (by decide)

end Recurrence
