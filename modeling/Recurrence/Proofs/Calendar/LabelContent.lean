import Recurrence.Calendar.Iso
import Recurrence.Calendar.Label
import Recurrence.Proofs.Calendar.WeekdayCycle
import Recurrence.Proofs.Text.Cutting
import Recurrence.Proofs.Text.Numerals

namespace Recurrence

/-! What the label of a moment tells. Cut at its commas, blanks and colon it gives back each part of
the date and the time of day to the minute, so two labels are alike only where these are. -/

namespace Weekday

/-- The weekday that is named by the first three letters. -/
def ofLabel? (label : List Char) : Option Weekday :=
  all.find? (·.shortName == label.take 3)

theorem ofLabel?_append (day : Weekday) (behind : List Char) :
    ofLabel? (day.shortName ++ behind) = some day := by
  have known : day.shortName.length = 3 ∧ all.find? (·.shortName == day.shortName) = some day := by
    cases day <;> decide
  rw [ofLabel?, List.take_left' known.1, known.2]

theorem not_mem_shortName (day : Weekday) : ',' ∉ day.shortName := by
  cases day <;> decide

end Weekday

namespace Month

theorem shortName_injective {month other : Nat} (positive : 1 ≤ month) (bound : month ≤ 12)
    (positive' : 1 ≤ other) (bound' : other ≤ 12) (same : shortName month = shortName other) :
    month = other := by
  have apart : ∀ month < 13, ∀ other < 13, 1 ≤ month → 1 ≤ other →
      shortName month = shortName other → month = other := by decide
  exact apart month (Nat.lt_succ_of_le bound) other (Nat.lt_succ_of_le bound') positive positive' same

theorem not_mem_shortName {month : Nat} (bound : month ≤ 12) : ' ' ∉ shortName month := by
  have solid : ∀ month < 13, ' ' ∉ shortName month := by decide
  exact solid month (Nat.lt_succ_of_le bound)

end Month

namespace Moment

variable {first second : Moment}

/-- The label, with each part behind the separator that ends the part before. -/
theorem label_eq (moment : Moment) :
    moment.label = moment.date.weekday.shortName ++ ',' :: ' ' ::
      (Month.shortName moment.date.month ++ ' ' ::
        (Text.decimal moment.date.day ++ ',' :: ' ' ::
          (Text.decimal moment.date.year ++ ',' :: ' ' ::
            (Text.decimal (faceHour moment.hour) ++ ':' ::
              (Text.padded 2 moment.minute ++ ' ' :: moment.meridiem.toList))))) := by
  have separator : ", ".toList = [',', ' '] := by decide
  simp only [label, separator, List.append_assoc, List.cons_append, List.nil_append]

/-- The twelve hours of each half of the day have different faces. -/
theorem hour_eq_of_face (faces : faceHour first.hour = faceHour second.hour)
    (halves : first.meridiem.toList = second.meridiem.toList) : first.hour = second.hour := by
  have inDay := first.hour_lt
  have inDay' := second.hour_lt
  have sameHalf : first.hour < 12 ↔ second.hour < 12 := by
    unfold meridiem at halves
    split at halves <;> split at halves
    · exact iff_of_true ‹_› ‹_›
    · cases halves
    · cases halves
    · exact iff_of_false ‹_› ‹_›
  unfold faceHour at faces
  split at faces <;> split at faces <;> omega

theorem parts_eq_of_label (same : first.label = second.label) :
    first.date = second.date ∧ first.hour = second.hour ∧ first.minute = second.minute := by
  rw [label_eq, label_eq] at same
  have cut := @Text.eq_of_append_eq_append
  have noDigit : Text.isPlainDigit ',' = false ∧ Text.isPlainDigit ':' = false ∧
      Text.isPlainDigit ' ' = false := by decide
  obtain ⟨-, same⟩ := cut first.date.weekday.not_mem_shortName
    second.date.weekday.not_mem_shortName same
  obtain ⟨months, same⟩ := cut (Month.not_mem_shortName first.date.month_le)
    (Month.not_mem_shortName second.date.month_le) (List.cons.inj same).2
  obtain ⟨days, same⟩ := cut (Text.not_mem_decimal noDigit.1 _) (Text.not_mem_decimal noDigit.1 _) same
  obtain ⟨years, same⟩ := cut (Text.not_mem_decimal noDigit.1 _) (Text.not_mem_decimal noDigit.1 _)
    (List.cons.inj same).2
  obtain ⟨faces, same⟩ := cut (Text.not_mem_decimal noDigit.2.1 _)
    (Text.not_mem_decimal noDigit.2.1 _) (List.cons.inj same).2
  obtain ⟨minutes, halves⟩ := cut (Text.not_mem_padded noDigit.2.2 _ _)
    (Text.not_mem_padded noDigit.2.2 _ _) same
  refine ⟨Date.ext_parts (Text.decimal_injective years) ?_ (Text.decimal_injective days),
    hour_eq_of_face (Text.decimal_injective faces) halves, ?_⟩
  · exact Month.shortName_injective first.date.month_pos first.date.month_le second.date.month_pos
      second.date.month_le months
  · rw [← Text.digitsValue_padded 2 first.minute, minutes, Text.digitsValue_padded]

theorem label_congr (dates : first.date = second.date) (hours : first.hour = second.hour)
    (minutes : first.minute = second.minute) : first.label = second.label := by
  simp only [label, meridiem, dates, hours, minutes]

theorem ofLabel?_label (moment : Moment) :
    Weekday.ofLabel? moment.label = some moment.date.weekday := by
  rw [label_eq]
  exact Weekday.ofLabel?_append _ _

/-- Labels tell moments apart to the minute, and the weekday that a label begins with is the one
that counting leads to. -/
theorem label_unambiguous (first second : Moment) :
    (first.label = second.label ↔
      first.date.year = second.date.year ∧ first.date.month = second.date.month ∧
        first.date.day = second.date.day ∧ first.hour = second.hour ∧
          first.minute = second.minute) ∧
      (∀ day, Weekday.ofLabel? first.label = some day ↔ first.date.FallsOn day) ∧
      (first.date.tomorrow? = some second.date →
        Weekday.ofLabel? second.label = (Weekday.ofLabel? first.label).map Weekday.next) := by
  refine ⟨⟨fun same => ?_, fun parts => ?_⟩, fun day => ?_, fun follows => ?_⟩
  · obtain ⟨dates, times⟩ := parts_eq_of_label same
    exact ⟨congrArg _ dates, congrArg _ dates, congrArg _ dates, times⟩
  · obtain ⟨years, months, days, hours, minutes⟩ := parts
    exact label_congr (Date.ext_parts years months days) hours minutes
  · rw [ofLabel?_label, Option.some.injEq, Date.fallsOn_iff]
  · rw [ofLabel?_label, ofLabel?_label, Date.weekday_tomorrow follows, Option.map_some]

/-- The last of February in a century that has no leap day. -/
theorem label_unambiguous_centuryFebruary :
    Weekday.ofLabel? ((Moment.ofIso? "1900-03-01T00:00:00".toList).get (by decide)).label =
      (Weekday.ofLabel?
        ((Moment.ofIso? "1900-02-28T12:59:59.999999".toList).get (by decide)).label).map Weekday.next :=
  (label_unambiguous _ _).2.2 (by decide)

example :
    ((Moment.ofIso? "1900-02-28T12:05:59.999999".toList).get (by decide)).label =
      "Wed, Feb 28, 1900, 12:05 PM".toList := by decide

end Moment

end Recurrence
