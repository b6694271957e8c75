import Mathlib.Order.Basic
import Recurrence.Calendar.Iso
import Recurrence.Calendar.Label
import Recurrence.Proofs.Calendar.Order
import Recurrence.Proofs.Text.Cutting
import Recurrence.Proofs.Text.Numerals

namespace Recurrence

/-! Distances from now. What is shown for a moment less than a week away is a whole number of the
largest unit that fits into the exact distance, and the distance lies between that number of units
and one more. So a later moment is never shown as nearer. -/

inductive DistanceUnit where
  | minute | hour | day
deriving DecidableEq, Repr

namespace DistanceUnit

/-- In microseconds, as exact distances are. -/
def length : DistanceUnit → Int
  | .minute => Moment.minuteLength
  | .hour => Moment.hourLength
  | .day => Moment.dayLength

def name : DistanceUnit → String
  | .minute => "minute"
  | .hour => "hour"
  | .day => "day"

def IsLargestWithin (unit : DistanceUnit) (distance : Int) : Prop :=
  unit.length ≤ distance ∧ ∀ other : DistanceUnit, other.length ≤ distance → other.length ≤ unit.length

theorem length_pos (unit : DistanceUnit) : 0 < unit.length := by
  cases unit <;> decide

theorem name_injective {unit other : DistanceUnit} (same : unit.name.toList = other.name.toList) :
    unit = other := by
  cases unit <;> cases other <;> first | rfl | exact absurd same (by decide)

end DistanceUnit

/-- What is shown for a moment less than a week away. -/
inductive ShownDistance where
  | soon
  | units (count : Nat) (unit : DistanceUnit)
deriving DecidableEq, Repr

namespace ShownDistance

variable {shown other : ShownDistance} {distance further : Int}

def text : ShownDistance → List Char
  | .soon => "in less than a minute".toList
  | .units count unit =>
      "in ".toList ++ (Text.decimal count ++ ' ' ::
        (unit.name.toList ++ (if count = 1 then [] else ['s'])))

def length : ShownDistance → Int
  | .soon => 0
  | .units count unit => count * unit.length

theorem text_soon_ne_units (count : Nat) (unit : DistanceUnit) :
    soon.text ≠ (units count unit).text := by
  intro same
  have cut : "in ".toList ++ "less than a minute".toList = (units count unit).text := same
  have behind := List.append_cancel_left cut
  have letters : "less than a minute".toList = "less".toList ++ ' ' :: "than a minute".toList := by
    decide
  obtain ⟨digits, -⟩ := Text.eq_of_append_eq_append (by decide)
    (Text.not_mem_decimal (by decide) count) (letters.symm.trans behind)
  exact Text.not_mem_decimal (c := 'l') (by decide) count (digits ▸ List.mem_cons_self)

theorem text_injective (same : shown.text = other.text) : shown = other := by
  cases shown with
  | soon =>
      cases other with
      | soon => rfl
      | units count unit => exact (text_soon_ne_units count unit same).elim
  | units count unit =>
      cases other with
      | soon => exact (text_soon_ne_units count unit same.symm).elim
      | units count' unit' =>
          obtain ⟨digits, names⟩ := Text.eq_of_append_eq_append
            (Text.not_mem_decimal (by decide) count) (Text.not_mem_decimal (by decide) count')
            (List.append_cancel_left same)
          obtain rfl := Text.decimal_injective digits
          rw [DistanceUnit.name_injective (List.append_cancel_right names)]

/-- What is shown brackets the exact distance. -/
inductive Brackets : ShownDistance → Int → Prop where
  | soon {distance : Int} (below : distance < Moment.minuteLength) : Brackets soon distance
  | units {distance : Int} {count : Nat} {unit : DistanceUnit} (positive : 1 ≤ count)
      (largest : unit.IsLargestWithin distance) (reached : count * unit.length ≤ distance)
      (within : distance < (count + 1) * unit.length) : Brackets (units count unit) distance

theorem length_nonneg (shown : ShownDistance) : 0 ≤ shown.length := by
  cases shown with
  | soon => exact Int.le_refl 0
  | units count unit => exact Int.mul_nonneg (Int.natCast_nonneg count) unit.length_pos.le

theorem Brackets.length_mono (brackets : shown.Brackets distance)
    (brackets' : other.Brackets further) (ordered : distance ≤ further) :
    shown.length ≤ other.length := by
  cases brackets with
  | soon => exact other.length_nonneg
  | @units _ count unit positive largest reached within =>
      cases brackets' with
      | soon below =>
          have fits : Moment.minuteLength ≤ unit.length := by cases unit <;> decide
          have := largest.1
          omega
      | @units _ count' unit' positive' largest' reached' within' =>
          have smaller : unit.length ≤ unit'.length := largest'.2 unit (largest.1.trans ordered)
          rcases Int.lt_or_le distance unit'.length with short | long
          · -- The nearer moment is not one whole unit of the further one away.
            calc count * unit.length
                ≤ unit'.length := (reached.trans_lt short).le
              _ = 1 * unit'.length := (Int.one_mul _).symm
              _ ≤ count' * unit'.length :=
                Int.mul_le_mul_of_nonneg_right (by exact_mod_cast positive') unit'.length_pos.le
          · have same : unit.length = unit'.length := Int.le_antisymm smaller (largest.2 unit' long)
            have counts : (count : Int) < count' + 1 := by
              refine Int.lt_of_mul_lt_mul_right ?_ unit'.length_pos.le
              calc (count : Int) * unit'.length
                  ≤ distance := same ▸ reached
                _ ≤ further := ordered
                _ < (count' + 1) * unit'.length := within'
            calc count * unit.length
                = count * unit'.length := by rw [same]
              _ ≤ count' * unit'.length :=
                Int.mul_le_mul_of_nonneg_right (Int.lt_add_one_iff.mp counts) unit'.length_pos.le

end ShownDistance

namespace Moment

variable {moment now later : Moment}

theorem inUnits_natCast (count : Nat) (unit : DistanceUnit) :
    inUnits count unit.name = (ShownDistance.units count unit).text := by
  have single : (count : Int) = 1 ↔ count = 1 := by omega
  rw [inUnits, Text.signed_natCast, List.append_assoc, List.append_assoc, List.cons_append]
  simp only [single]
  rfl

theorem label_ne_text (moment : Moment) (shown : ShownDistance) : moment.label ≠ shown.text := by
  have capital : ∀ day : Weekday, day.shortName.head? ≠ some 'i' ∧ day.shortName ≠ [] := by
    intro day
    cases day <;> decide
  have small : shown.text.head? = some 'i' := by
    cases shown <;> rfl
  intro same
  rw [← same] at small
  simp only [label, List.append_assoc] at small
  rw [List.head?_append_of_ne_nil _ (capital _).2] at small
  exact (capital _).1 small

/-- The label, by the exact distance. -/
theorem relativeLabel_eq (moment now : Moment) :
    moment.relativeLabel now =
      if moment.since now < minuteLength then ShownDistance.soon.text
      else if moment.since now < hourLength then inUnits (moment.since now / minuteLength) "minute"
      else if moment.since now < dayLength then inUnits (moment.since now / hourLength) "hour"
      else if moment.since now < 7 * dayLength then inUnits (moment.since now / dayLength) "day"
      else moment.label := by
  have positive : 0 < minuteLength ∧ 0 < hourLength ∧ 0 < dayLength := by decide
  simp only [relativeLabel, Int.ediv_lt_iff_lt_mul positive.1,
    Int.ediv_lt_iff_lt_mul positive.2.1, Int.ediv_lt_iff_lt_mul positive.2.2]
  rw [Int.one_mul]
  rfl

/-- One whole number of units brackets the distance, the one that dividing leads to. -/
theorem brackets_inUnits {unit : DistanceUnit} {distance : Int}
    (largest : unit.IsLargestWithin distance) :
    ∃ count : Nat, (ShownDistance.units count unit).Brackets distance ∧
      inUnits (distance / unit.length) unit.name = (ShownDistance.units count unit).text := by
  have positive : 1 ≤ distance / unit.length :=
    (Int.le_ediv_iff_mul_le unit.length_pos).mpr (by rw [Int.one_mul]; exact largest.1)
  obtain ⟨count, counted⟩ := Int.eq_ofNat_of_zero_le (Int.le_of_lt positive)
  refine ⟨count, .units ?_ largest ?_ ?_, ?_⟩
  · omega
  · rw [← counted]
    exact Int.ediv_mul_le distance unit.length_pos.ne'
  · rw [← counted]
    exact Int.lt_ediv_add_one_mul_self distance unit.length_pos
  · rw [counted, inUnits_natCast]

/-- Less than a week away, the distance is shown. -/
theorem exists_shown (within : moment.since now < 7 * dayLength) :
    ∃ shown : ShownDistance,
      shown.Brackets (moment.since now) ∧ moment.relativeLabel now = shown.text := by
  have ascending : minuteLength ≤ hourLength ∧ hourLength ≤ dayLength := by decide
  rw [relativeLabel_eq]
  by_cases soon : moment.since now < minuteLength
  · exact ⟨.soon, .soon soon, if_pos soon⟩
  have largest : ∃ unit : DistanceUnit, unit.IsLargestWithin (moment.since now) ∧
      moment.relativeLabel now = inUnits (moment.since now / unit.length) unit.name := by
    rw [relativeLabel_eq, if_neg soon]
    by_cases inHour : moment.since now < hourLength
    · refine ⟨.minute, ⟨Int.not_lt.mp soon, fun other fits => ?_⟩, if_pos inHour⟩
      cases other <;> simp only [DistanceUnit.length] at fits ⊢ <;> omega
    by_cases inDay : moment.since now < dayLength
    · refine ⟨.hour, ⟨Int.not_lt.mp inHour, fun other fits => ?_⟩, ?_⟩
      · cases other <;> simp only [DistanceUnit.length] at fits ⊢ <;> omega
      · rw [if_neg inHour, if_pos inDay]
        rfl
    · refine ⟨.day, ⟨Int.not_lt.mp inDay, fun other _ => ?_⟩, ?_⟩
      · cases other <;> simp only [DistanceUnit.length] <;> omega
      · rw [if_neg inHour, if_neg inDay, if_pos within]
        rfl
  obtain ⟨unit, largest, inUnit⟩ := largest
  obtain ⟨count, brackets, written⟩ := brackets_inUnits largest
  exact ⟨.units count unit, brackets, relativeLabel_eq moment now ▸ inUnit.trans written⟩

theorem relativeLabel_of_week (reached : 7 * dayLength ≤ moment.since now) :
    moment.relativeLabel now = moment.label := by
  have ascending : minuteLength ≤ hourLength ∧ hourLength ≤ dayLength ∧ 0 < dayLength := by decide
  rw [relativeLabel_eq, if_neg (by omega), if_neg (by omega), if_neg (by omega), if_neg (by omega)]

theorem since_le_since (ordered : moment ≤ later) (now : Moment) :
    moment.since now ≤ later.since now :=
  Int.sub_le_sub_right (Int.ofNat_le.mpr (le_iff_microseconds.mp ordered)) _

/-- What is read off a shown distance brackets the exact one, and later moments are never shown as
nearer. -/
theorem relativeLabel_brackets (moment now : Moment) :
    (moment.relativeLabel now = ShownDistance.soon.text ↔ moment.since now < minuteLength) ∧
      (moment.relativeLabel now = moment.label ↔ 7 * dayLength ≤ moment.since now) ∧
      (minuteLength ≤ moment.since now → moment.since now < 7 * dayLength →
        ∃ (count : Nat) (unit : DistanceUnit),
          moment.relativeLabel now = (ShownDistance.units count unit).text ∧ 1 ≤ count ∧
            unit.IsLargestWithin (moment.since now) ∧
              count * unit.length ≤ moment.since now ∧
                moment.since now < (count + 1) * unit.length) ∧
      ∀ (later : Moment) (shown shownLater : ShownDistance), moment ≤ later →
        moment.relativeLabel now = shown.text → later.relativeLabel now = shownLater.text →
          shown.length ≤ shownLater.length := by
  have bracketed {moment : Moment} {shown : ShownDistance}
      (label : moment.relativeLabel now = shown.text) : shown.Brackets (moment.since now) := by
    rcases Int.lt_or_le (moment.since now) (7 * dayLength) with within | reached
    · obtain ⟨other, brackets, written⟩ := exists_shown within
      exact ShownDistance.text_injective (label.symm.trans written) ▸ brackets
    · exact (label_ne_text moment shown ((relativeLabel_of_week reached).symm.trans label)).elim
  refine ⟨⟨fun label => ?_, fun soon => ?_⟩, ⟨fun label => ?_, relativeLabel_of_week⟩,
    fun reached within => ?_, fun later shown shownLater ordered label labelLater => ?_⟩
  · cases bracketed label with
    | soon below => exact below
  · rw [relativeLabel_eq, if_pos soon]
  · by_contra within
    obtain ⟨shown, -, written⟩ := exists_shown (Int.not_le.mp within)
    exact label_ne_text moment shown (label.symm.trans written)
  · obtain ⟨shown, brackets, written⟩ := exists_shown within
    cases brackets with
    | soon below => exact absurd below (Int.not_lt.mpr reached)
    | @units _ count unit positive largest lower upper =>
        exact ⟨count, unit, written, positive, largest, lower, upper⟩
  · exact (bracketed label).length_mono (bracketed labelLater) (since_le_since ordered now)

/-- On the two sides of the first full day. -/
theorem relativeLabel_brackets_fullDay :
    (∃ (count : Nat) (unit : DistanceUnit),
      ((Moment.ofIso? "2024-02-29T08:59:59.999999".toList).get (by decide)).relativeLabel
          ((Moment.ofIso? "2024-02-28T09:00:00".toList).get (by decide)) =
        (ShownDistance.units count unit).text ∧ 1 ≤ count) ∧
      (ShownDistance.units 23 .hour).length ≤ (ShownDistance.units 1 .day).length :=
  have brackets := relativeLabel_brackets
    ((Moment.ofIso? "2024-02-29T08:59:59.999999".toList).get (by decide))
    ((Moment.ofIso? "2024-02-28T09:00:00".toList).get (by decide))
  have ⟨count, unit, written, positive, _⟩ := brackets.2.2.1 (by decide) (by decide)
  ⟨⟨count, unit, written, positive⟩,
    brackets.2.2.2 ((Moment.ofIso? "2024-02-29T09:00:00".toList).get (by decide))
      (.units 23 .hour) (.units 1 .day) (by decide) (by decide) (by decide)⟩

end Moment

end Recurrence
