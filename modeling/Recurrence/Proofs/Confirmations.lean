import Recurrence.Proofs.Schedules
import Recurrence.Proofs.Text.Cutting

namespace Recurrence

/-! Schedules read back from confirmations. The words in front of the times say on which days a
schedule runs, or how often, and the words behind them say the times. So a confirmation tells the
schedule, whichever rule or loose reading it comes from. -/

namespace Phrase

open Crontab

/-! Times -/

/-- A time of day read back from the words for the face of a clock and the half of the day. -/
def clockSaid (face half : List Char) : Clock :=
  match Text.splitFirst? ':' face with
  | some (hour, minute) =>
      ⟨Text.digitsValue hour % 12 + if half = "PM".toList then 12 else 0,
        Text.digitsValue minute⟩
  | none => .midnight

/-- The times of day that words say. The half of the day is read with the face in front of it. -/
def clocksSaid : List (List Char) → List Clock
  | [] => []
  | word :: rest =>
      if word = "midnight".toList then .midnight :: clocksSaid rest
      else if word = "noon".toList then .noon :: clocksSaid rest
      else if ':' ∈ word then clockSaid word (rest.headD []) :: clocksSaid rest
      else clocksSaid rest

/-- Words that say no time by themselves. -/
def timeless : List (List Char) :=
  ["at".toList, "and".toList, "AM".toList, "PM".toList]

def faceHour (hour : Int) : Int :=
  if hour % 12 = 0 then 12 else hour % 12

theorem digits_of_faceHour : ∀ hour < 24,
    Text.IsWord (Text.signed (faceHour (hour : Nat))) ∧
    ':' ∉ Text.signed (faceHour (hour : Nat)) ∧
    (Text.digitsValue (Text.signed (faceHour (hour : Nat))) : Int) % 12 +
      (if 12 ≤ hour then 12 else 0) = hour := by
  decide

theorem digits_of_minute : ∀ minute < 60,
    Text.IsWord (Text.padded 2 (minute : Nat)) ∧
    Text.digitsValue (Text.padded 2 (minute : Nat)) = minute := by
  decide

/-- A time other than midnight and noon is said in two words. -/
theorem words_label {clock : Clock} (inRange : clock.InRange) (notMidnight : clock ≠ .midnight)
    (notNoon : clock ≠ .noon) :
    ∃ face half, Text.words clock.label = [face, half] ∧ ':' ∈ face ∧
      half ∈ timeless ∧ clockSaid face half = clock := by
  obtain ⟨hour, minute⟩ := clock
  obtain ⟨⟨hourLeast, hourGreatest⟩, minuteLeast, minuteGreatest⟩ := inRange
  obtain ⟨hour, rfl⟩ := Int.eq_ofNat_of_zero_le hourLeast
  obtain ⟨minute, rfl⟩ := Int.eq_ofNat_of_zero_le minuteLeast
  obtain ⟨isWordHour, noColon, hourValue⟩ :=
    digits_of_faceHour hour (Nat.lt_succ_of_le (Int.ofNat_le.mp hourGreatest))
  obtain ⟨isWordMinute, minuteValue⟩ :=
    digits_of_minute minute (Nat.lt_succ_of_le (Int.ofNat_le.mp minuteGreatest))
  let face := Text.signed (faceHour hour) ++ ':' :: Text.padded 2 (minute : Int)
  let half := if 12 ≤ hour then "PM".toList else "AM".toList
  have label : Clock.label ⟨hour, minute⟩ = face ++ ' ' :: half := by
    simp only [Clock.label, if_neg notMidnight, if_neg notNoon, face, half, faceHour]
    split <;> split <;> simp <;> omega
  have isWordFace : Text.IsWord face := by
    refine ⟨by simp [face], fun c member => ?_⟩
    rcases List.mem_append.mp member with inHour | behind
    · exact isWordHour.2 c inHour
    · rcases List.mem_cons.mp behind with rfl | inMinute
      · decide
      · exact isWordMinute.2 c inMinute
  have isWordHalf : Text.IsWord half := by
    simp only [half]
    split <;> decide
  have isHalf : half ∈ timeless := by
    simp only [half]
    split <;> decide
  refine ⟨face, half, ?_, by simp [face], isHalf, ?_⟩
  · rw [label, Text.words_word_append isWordFace Text.isBlank_space, Text.words_word isWordHalf]
  · have cut : Text.splitFirst? ':' face =
        some (Text.signed (faceHour hour), Text.padded 2 (minute : Int)) :=
      Text.splitFirst?_append ':' noColon _
    have afternoon : half = "PM".toList ↔ 12 ≤ hour := by
      simp only [half]
      split
      · rename_i late
        exact iff_of_true rfl late
      · rename_i early
        exact iff_of_false (by decide) early
    simp only [clockSaid, cut, afternoon, minuteValue, hourValue]

theorem clocksSaid_skip {word : List Char} (notTime : word ∈ timeless)
    (rest : List (List Char)) : clocksSaid (word :: rest) = clocksSaid rest := by
  have others : ∀ word ∈ timeless,
      word ≠ "midnight".toList ∧ word ≠ "noon".toList ∧ ':' ∉ word := by decide
  obtain ⟨notMidnight, notNoon, noColon⟩ := others word notTime
  rw [clocksSaid, if_neg notMidnight, if_neg notNoon, if_neg noColon]

theorem clocksSaid_label {clock : Clock} (inRange : clock.InRange) (rest : List (List Char)) :
    clocksSaid (Text.words clock.label ++ rest) = clock :: clocksSaid rest := by
  by_cases midnight : clock = .midnight
  · have words : Text.words Clock.midnight.label = ["midnight".toList] := by decide
    rw [midnight, words, List.singleton_append, clocksSaid, if_pos rfl]
  · by_cases noon : clock = .noon
    · have words : Text.words Clock.noon.label = ["noon".toList] := by decide
      rw [noon, words, List.singleton_append, clocksSaid, if_neg (by decide), if_pos rfl]
    · obtain ⟨face, half, words, colon, isHalf, said⟩ := words_label inRange midnight noon
      have other {word : String} (absent : ':' ∉ word.toList) : face ≠ word.toList :=
        fun same => absent (same ▸ colon)
      rw [words, List.cons_append, List.singleton_append, clocksSaid, if_neg (other (by decide)),
        if_neg (other (by decide)), if_pos colon, List.headD_cons, said, clocksSaid_skip isHalf]

theorem clocksSaid_joined {clocks : List Clock} (inRange : ∀ clock ∈ clocks, clock.InRange) :
    clocksSaid (Text.words (Text.joinWith " and " (clocks.map Clock.label))) = clocks := by
  induction clocks with
  | nil => rfl
  | cons clock others ih =>
      obtain ⟨here, there⟩ := List.forall_mem_cons.mp inRange
      cases others with
      | nil =>
          have said := clocksSaid_label here []
          rw [List.append_nil] at said
          rw [Text.joinWith, List.map_singleton, List.intercalate_singleton, said]
          rfl
      | cons next others =>
          have joined : Text.joinWith " and " ((clock :: next :: others).map Clock.label) =
              clock.label ++ ' ' :: ("and".toList ++
                ' ' :: Text.joinWith " and " ((next :: others).map Clock.label)) := by
            simp [Text.joinWith, List.intercalate_cons_cons]
          rw [joined, Text.words_append_blank Text.isBlank_space,
            Text.words_word_append (by decide) Text.isBlank_space, clocksSaid_label here,
            clocksSaid_skip (by decide), ih there]

/-! Days and rates -/

/-- The number that words say, of which at most one holds digits. -/
def numberSaid (words : List (List Char)) : Nat :=
  Text.digitsValue (words.flatMap (·.filter Text.isPlainDigit))

def weekdaysSaid (words : List (List Char)) : List Weekday :=
  words.filterMap fun word => Weekday.all.find? (·.name.toList == word.filter (· ≠ ','))

def monthNamed? (name : List Char) : Option Nat :=
  (Month.names.findIdx? (·.toList == name)).map (· + 1)

def monthSaid (words : List (List Char)) : Nat :=
  (words.filterMap monthNamed?).headD 1

def rateWords : List (List Char) :=
  ["minute", "minute(s)", "hour", "hour(s)"].map String.toList

/-- The minutes and hours. Only where the words in front do not say how often, the times count. -/
def timesSaid (subject : List (List Char)) (clocks : List Clock) : Term × Term :=
  if "minute".toList ∈ subject then (.any, .any)
  else if "minute(s)".toList ∈ subject then (.every (numberSaid subject), .any)
  else if "hour".toList ∈ subject then (.value 0, .any)
  else if "hour(s)".toList ∈ subject then (.value 0, .every (numberSaid subject))
  else (.value (clocks.headD .midnight).minute, .only (clocks.map (·.hour)))

/-- The words for schedules that do not leave out any day. -/
def dailyWords : List (List Char) :=
  "Daily".toList :: "day".toList :: rateWords

/-- The days of the month, the months and the days of the week. -/
def daysSaid (subject : List (List Char)) : Term × Term × Term :=
  if "First".toList ∈ subject then (.value 1, .any, .any)
  else if "Day".toList ∈ subject then (.value (numberSaid subject), .any, .any)
  else if "day(s)".toList ∈ subject then (.every (numberSaid subject), .any, .any)
  else if "year".toList ∈ subject then
    (.value (numberSaid subject), .value (monthSaid subject), .any)
  else if "weekday".toList ∈ subject then (.any, .any, .span 1 5)
  else if "weekend".toList ∈ subject then (.any, .any, .only [0, 6])
  else if ∃ word ∈ dailyWords, word ∈ subject then (.any, .any, .any)
  else (.any, .any, .only ((weekdaysSaid subject).map fun day => (day.code : Int)))

/-- The schedule that a confirmation announces. -/
def lineSaid (confirmation : List Char) : Line :=
  let said := Text.words confirmation
  let subject := said.takeWhile (· ≠ "at".toList)
  let times := timesSaid subject (clocksSaid (said.drop subject.length))
  let days := daysSaid subject
  ⟨times.1, times.2, days.1, days.2.1, days.2.2⟩

/-- What stands in front of times says the days and leaves it to them how often it is. -/
structure Announces (subject : List Char) (days : Term × Term × Term) : Prop where
  noTime : "at".toList ∉ Text.words subject
  noRate : ∀ word ∈ rateWords, word ∉ Text.words subject
  days : daysSaid (Text.words subject) = days

instance (subject : List Char) (days : Term × Term × Term) : Decidable (Announces subject days) :=
  decidable_of_iff
    ("at".toList ∉ Text.words subject ∧ (∀ word ∈ rateWords, word ∉ Text.words subject) ∧
      daysSaid (Text.words subject) = days)
    ⟨fun ⟨noTime, noRate, days⟩ => ⟨noTime, noRate, days⟩,
      fun announces => ⟨announces.noTime, announces.noRate, announces.days⟩⟩

theorem timesSaid_of_noRate {subject : List (List Char)}
    (noRate : ∀ word ∈ rateWords, word ∉ subject) (clocks : List Clock) :
    timesSaid subject clocks =
      (.value (clocks.headD .midnight).minute, .only (clocks.map (·.hour))) := by
  unfold timesSaid
  rw [if_neg (noRate _ (by decide)), if_neg (noRate _ (by decide)), if_neg (noRate _ (by decide)),
    if_neg (noRate _ (by decide))]

section Subject

variable {subject : List Char} {dayOfMonth month dayOfWeek : Term}

theorem lineSaid_at (announces : Announces subject (dayOfMonth, month, dayOfWeek))
    {times : List Char} {clocks : List Clock} (said : clocksSaid (Text.words times) = clocks) :
    lineSaid (subject ++ (" at ".toList ++ times)) =
      ⟨.value (clocks.headD .midnight).minute, .only (clocks.map (·.hour)), dayOfMonth, month,
        dayOfWeek⟩ := by
  have words : Text.words (subject ++ (" at ".toList ++ times)) =
      Text.words subject ++ "at".toList :: Text.words times := by
    rw [← Text.words_word_append (by decide) Text.isBlank_space, ← Text.words_append_blank
      Text.isBlank_space]
    rfl
  have front : (Text.words subject ++ "at".toList :: Text.words times).takeWhile
      (· ≠ "at".toList) = Text.words subject := by
    rw [List.takeWhile_append_of_pos]
    · rw [List.takeWhile_cons_of_neg (by simp), List.append_nil]
    · intro word member
      simpa using fun same : word = "at".toList => announces.noTime (same ▸ member)
  simp only [lineSaid, words, front, List.drop_left, clocksSaid_skip (show "at".toList ∈ timeless
    by decide), said, timesSaid_of_noRate announces.noRate, announces.days]

theorem lineSaid_atLabel (announces : Announces subject (dayOfMonth, month, dayOfWeek))
    {clock : Clock} (inRange : clock.InRange) :
    lineSaid (subject ++ atLabel clock) = lineAt clock dayOfMonth month dayOfWeek := by
  have said := clocksSaid_label inRange []
  rw [List.append_nil] at said
  exact lineSaid_at announces said

end Subject

/-! Subjects -/

/-- The words that would keep the word for years from deciding on the days. -/
def cueWords : List (List Char) :=
  "at".toList :: "First".toList :: "Day".toList :: "day(s)".toList :: rateWords

theorem announces_of_year {subject : List Char}
    (noCue : ∀ word ∈ Text.words subject, word ∉ cueWords)
    (year : "year".toList ∈ Text.words subject) :
    Announces subject (.value (numberSaid (Text.words subject)),
      .value (monthSaid (Text.words subject)), .any) := by
  have absent {word : List Char} (cue : word ∈ cueWords) : word ∉ Text.words subject :=
    fun member => noCue word member cue
  have cues : ∀ word ∈ rateWords, word ∈ cueWords := by decide
  refine ⟨absent (by decide), fun word member => absent (cues word member), ?_⟩
  unfold daysSaid
  rw [if_neg (absent (by decide)), if_neg (absent (by decide)), if_neg (absent (by decide)),
    if_pos year]

theorem announces_everyWeekday (day : Weekday) :
    Announces ("Every ".toList ++ day.name.toList) (.any, .any, .value day.code) := by
  cases day <;> decide

theorem announces_days : ∀ n < 32,
    Announces ("Every ".toList ++ Text.decimal n ++ " day(s)".toList) (.every n, .any, .any) := by
  decide

theorem announces_dayOfMonth : ∀ day < 32,
    Announces ("Day ".toList ++ Text.decimal day ++ " of every month".toList)
      (.value day, .any, .any) := by
  decide

theorem said_of_monthName : ∀ before < 12, Text.IsWord (Month.name (before + 1)) ∧
    Month.name (before + 1) ∉ cueWords ∧
    (Month.name (before + 1)).filter Text.isPlainDigit = [] ∧
    monthNamed? (Month.name (before + 1)) = some (before + 1) := by
  decide

theorem said_of_ordinal : ∀ day : Nat, day < 32 → Text.IsWord (ordinalLabel day) ∧
    ordinalLabel day ∉ cueWords ∧
    Text.digitsValue ((ordinalLabel day).filter Text.isPlainDigit) = day := by
  decide

/-- The words in front of a month and a day of it. -/
def yearlyWords : List (List Char) :=
  ["Every".toList, "year".toList, "on".toList]

theorem announces_yearly {day before : Nat} (dayBound : day < 32) (monthBound : before < 12) :
    Announces ("Every year on ".toList ++ Month.name (before + 1) ++ ' ' :: ordinalLabel day)
      (.value day, .value (before + 1 : Nat), .any) := by
  obtain ⟨isWordMonth, monthNoCue, noDigits, isMonth⟩ := said_of_monthName before monthBound
  obtain ⟨isWordDay, dayNoCue, isDay⟩ := said_of_ordinal day dayBound
  have front : "Every year on ".toList = Text.unwords yearlyWords ++ [' '] := by decide
  have frontWords : ∀ word ∈ yearlyWords, Text.IsWord word := by decide
  have frontNoCue : ∀ word ∈ yearlyWords, word ∉ cueWords := by decide
  have frontDigits : yearlyWords.flatMap (·.filter Text.isPlainDigit) = [] := by decide
  have frontMonths : yearlyWords.filterMap monthNamed? = [] := by decide
  have words : Text.words ("Every year on ".toList ++ Month.name (before + 1) ++
      ' ' :: ordinalLabel day) = yearlyWords ++ [Month.name (before + 1), ordinalLabel day] := by
    rw [Text.words_append_blank Text.isBlank_space, Text.words_word isWordDay, front,
      List.append_assoc, List.singleton_append, Text.words_append_blank Text.isBlank_space,
      Text.words_word isWordMonth, Text.words_unwords frontWords, List.append_assoc,
      List.singleton_append]
  have noCue : ∀ word ∈ yearlyWords ++ [Month.name (before + 1), ordinalLabel day],
      word ∉ cueWords := by
    simp only [List.forall_mem_append, List.forall_mem_cons]
    exact ⟨frontNoCue, monthNoCue, dayNoCue, fun _ member => absurd member List.not_mem_nil⟩
  have year : "year".toList ∈ yearlyWords ++ [Month.name (before + 1), ordinalLabel day] :=
    List.mem_append_left _ (by decide)
  have number : numberSaid (yearlyWords ++ [Month.name (before + 1), ordinalLabel day]) = day := by
    simp only [numberSaid, List.flatMap_append, List.flatMap_cons, List.flatMap_nil, frontDigits,
      noDigits, List.nil_append, List.append_nil, isDay]
  have month : monthSaid (yearlyWords ++ [Month.name (before + 1), ordinalLabel day]) =
      before + 1 := by
    rw [monthSaid, List.filterMap_append, frontMonths, List.nil_append,
      List.filterMap_cons_some isMonth, List.headD_cons]
  have announces := announces_of_year (words ▸ noCue) (words ▸ year)
  rwa [words, number, month] at announces

theorem lineSaid_minutes : ∀ n < 60,
    lineSaid (Phrase.minutes n).confirmation = (Phrase.minutes n).line := by
  decide

theorem lineSaid_hours : ∀ n < 24,
    lineSaid (Phrase.hours n).confirmation = (Phrase.hours n).line := by
  decide

/-- What may stand between two weekdays, but for the blank behind it. -/
def marks : List (List Char) := [" and".toList, ",".toList]

/-- The words in front of lists of weekdays. -/
def leads : List (List Char) := ["Every".toList, "On".toList]

def listWords : List (List Char) :=
  leads ++ "and".toList ::
    Weekday.all.flatMap fun day => [day.name.toList, day.name.toList ++ [',']]

theorem announces_of_listWords {subject : List Char}
    (listed : ∀ word ∈ Text.words subject, word ∈ listWords) :
    Announces subject (.any, .any,
      .only ((weekdaysSaid (Text.words subject)).map fun day => (day.code : Int))) := by
  have absent {word : List Char} (other : word ∉ listWords) : word ∉ Text.words subject :=
    fun member => other (listed word member)
  have notDaily : ¬ ∃ word ∈ dailyWords, word ∈ Text.words subject := by
    have others : ∀ word ∈ dailyWords, word ∉ listWords := by decide
    intro found
    obtain ⟨word, member, inSubject⟩ := found
    exact absent (others word member) inSubject
  refine ⟨absent (by decide), fun word member => ?_, ?_⟩
  · have others : ∀ word ∈ rateWords, word ∉ listWords := by decide
    exact absent (others word member)
  · unfold daysSaid
    rw [if_neg (absent (by decide)), if_neg (absent (by decide)),
      if_neg (absent (by decide)), if_neg (absent (by decide)),
      if_neg (absent (by decide)), if_neg (absent (by decide)), if_neg notDaily]

theorem words_marked : ∀ day : Weekday, ∀ mark ∈ [] :: marks,
    weekdaysSaid (Text.words (day.name.toList ++ mark)) = [day] ∧
      ∀ word ∈ Text.words (day.name.toList ++ mark), word ∈ listWords := by
  intro day
  cases day <;> decide

theorem weekdaysSaid_listNames {separator : String} {mark : List Char}
    (marked : separator.toList = mark ++ [' ']) (known : mark ∈ marks) (named : List Weekday) :
    weekdaysSaid (Text.words (listNames separator named)) = named ∧
      ∀ word ∈ Text.words (listNames separator named), word ∈ listWords := by
  induction named with
  | nil => exact ⟨rfl, fun word member => absurd member List.not_mem_nil⟩
  | cons day others ih =>
      cases others with
      | nil =>
          have alone := words_marked day [] List.mem_cons_self
          rw [List.append_nil] at alone
          rw [listNames, Text.joinWith, List.map_singleton, List.intercalate_singleton]
          exact alone
      | cons next others =>
          obtain ⟨here, listedHere⟩ := words_marked day mark (List.mem_cons_of_mem _ known)
          obtain ⟨there, listedThere⟩ := ih
          have cut : Text.words (listNames separator (day :: next :: others)) =
              Text.words (day.name.toList ++ mark) ++
                Text.words (listNames separator (next :: others)) := by
            rw [← Text.words_append_blank Text.isBlank_space]
            simp [listNames, Text.joinWith, List.intercalate_cons_cons, marked]
          rw [cut]
          refine ⟨?_, List.forall_mem_append.mpr ⟨listedHere, listedThere⟩⟩
          rw [weekdaysSaid, List.filterMap_append]
          exact congrArg₂ (· ++ ·) here there

theorem announces_listNames {lead : List Char} (leading : lead ∈ leads)
    {separator : String} {mark : List Char} (marked : separator.toList = mark ++ [' '])
    (known : mark ∈ marks) (named : List Weekday) :
    Announces (lead ++ ' ' :: listNames separator named)
      (.any, .any, .only (named.map fun day => (day.code : Int))) := by
  have leadsOff : ∀ lead ∈ leads,
      Text.IsWord lead ∧ lead ∈ listWords ∧ weekdaysSaid [lead] = [] := by decide
  obtain ⟨isWord, listedLead, noWeekday⟩ := leadsOff lead leading
  obtain ⟨found, listed⟩ := weekdaysSaid_listNames marked known named
  have words := Text.words_word_append isWord Text.isBlank_space (listNames separator named)
  have announces := announces_of_listWords
    (words ▸ List.forall_mem_cons.mpr ⟨listedLead, listed⟩)
  have same : weekdaysSaid (Text.words (lead ++ ' ' :: listNames separator named)) = named := by
    rw [words, ← List.singleton_append, weekdaysSaid, List.filterMap_append]
    exact congrArg₂ (· ++ ·) noWeekday found
  rwa [same] at announces

/-! Confirmations -/

theorem inRange_of_lineAt_fits {clock : Clock} {dayOfMonth month dayOfWeek : Term}
    (fits : (lineAt clock dayOfMonth month dayOfWeek).Fits) : clock.InRange :=
  ⟨fits.hour.2 _ (List.mem_singleton_self _), fits.minute.2 _ (List.mem_singleton_self _)⟩

theorem natCast_bounds {n : Nat} {field : Field} (fits : (Term.value n).Fits field) :
    field.least ≤ n ∧ n ≤ field.greatest :=
  (fits.2 _ (List.mem_singleton_self _)).imp Int.ofNat_le.mp Int.ofNat_le.mp

theorem lineSaid_daily {clock : Clock} (inRange : clock.InRange) :
    lineSaid (Phrase.daily clock).confirmation = (Phrase.daily clock).line :=
  lineSaid_atLabel (show Announces "Daily".toList (.any, .any, .any) by decide) inRange

theorem lineSaid_weekdays (named : List Weekday) {clock : Clock} (inRange : clock.InRange) :
    lineSaid (Phrase.weekdays named clock).confirmation = (Phrase.weekdays named clock).line :=
  lineSaid_atLabel (announces_listNames (show "Every".toList ∈ leads by decide)
    (show " and ".toList = " and".toList ++ [' '] by decide) (by decide) named) inRange

/-- Numbers and clocks of a line that fits are bounded, so that only lists of weekdays and pairs of
times are left to induction. -/
theorem lineSaid_confirmation {phrase : Phrase} (sure : phrase.confidence ≠ .low)
    (fits : phrase.line.Fits) : lineSaid phrase.confirmation = phrase.line := by
  cases phrase with
  | everyMinute | everyHour | everyDay | everyWeek | everyMonth | everyYear | twiceADay =>
      decide
  | minutes n => exact lineSaid_minutes n (Nat.lt_succ_of_le (Int.ofNat_le.mp fits.minute.2))
  | hours n => exact lineSaid_hours n (Nat.lt_succ_of_le (Int.ofNat_le.mp fits.hour.2))
  | days n clock =>
      have bound := Int.ofNat_le.mp fits.dayOfMonth.2
      exact lineSaid_atLabel (announces_days n (Nat.lt_succ_of_le bound))
        (inRange_of_lineAt_fits fits)
  | daily clock => exact lineSaid_daily (inRange_of_lineAt_fits fits)
  | weekday day clock =>
      exact lineSaid_atLabel (announces_everyWeekday day) (inRange_of_lineAt_fits fits)
  | workdays clock =>
      have announces : Announces "Every weekday".toList (.any, .any, .span 1 5) := by
        decide
      exact lineSaid_atLabel announces (inRange_of_lineAt_fits fits)
  | weekend clock =>
      have announces : Announces "Every weekend".toList (.any, .any, .only [0, 6]) := by
        decide
      exact lineSaid_atLabel announces (inRange_of_lineAt_fits fits)
  | weekdays named clock => exact lineSaid_weekdays named (inRange_of_lineAt_fits fits)
  | firstOfMonth clock =>
      have announces : Announces "First day of every month".toList (.value 1, .any, .any) := by
        decide
      exact lineSaid_atLabel announces (inRange_of_lineAt_fits fits)
  | dayOfMonth day clock =>
      have bound := (natCast_bounds fits.dayOfMonth).2
      exact lineSaid_atLabel (announces_dayOfMonth day (Nat.lt_succ_of_le bound))
        (inRange_of_lineAt_fits fits)
  | twiceADayAt both =>
      have announces : Announces "Twice a day".toList (.any, .any, .any) := by decide
      have inRange : ∀ clock ∈ both.map fun hour => (⟨hour, 0⟩ : Clock), clock.InRange := by
        simp only [List.forall_mem_map]
        exact fun hour member => ⟨fits.hour.2 hour member, Int.le_refl 0, Int.natCast_nonneg 59⟩
      have said := lineSaid_at announces (clocksSaid_joined inRange)
      have onTheHour : ((both.map fun hour => (⟨hour, 0⟩ : Clock)).headD .midnight).minute = 0 := by
        cases both <;> rfl
      have hours : (both.map fun hour => (⟨hour, 0⟩ : Clock)).map (·.hour) = both := by
        rw [List.map_map]
        exact List.map_id both
      rw [onTheHour, hours, List.map_map] at said
      exact said
  | yearly month day clock =>
      have dayBound := (natCast_bounds fits.dayOfMonth).2
      obtain ⟨first, last⟩ := natCast_bounds fits.month
      obtain ⟨before, rfl⟩ := Nat.exists_eq_add_of_le' first
      exact lineSaid_atLabel
        (announces_yearly (Nat.lt_succ_of_le dayBound) (Nat.lt_of_succ_le last))
        (inRange_of_lineAt_fits fits)
  | lastWeekday | nthWeekday | lastDayOfMonth | weeks => exact absurd rfl sure

theorem lineSaid_weekdaysReading (named : List Weekday) {clock : Clock} (inRange : clock.InRange) :
    lineSaid ("On ".toList ++ listNames ", " named ++ atLabel clock) =
      (Phrase.weekdays named clock).line :=
  lineSaid_atLabel (announces_listNames (show "On".toList ∈ leads by decide)
    (show ", ".toList = ",".toList ++ [' '] by decide) (by decide) named) inRange

end Phrase

/-! Readings -/

open Crontab Phrase

variable {teller further : TimeTeller} {text other : List Char} {format : Format}
  {reading again : Reading}

/-- The schedule of a reading that is likely or sure to be meant is the one that its confirmation
states. -/
theorem ComesTo.schedule?_eq (tells : teller.InRange) (comes : ComesTo teller text reading)
    (sure : reading.confidence ≠ .low) :
    reading.schedule? = reading.interpretation.map fun said => (lineSaid said).text := by
  have confirmed {phrase : Phrase} (same : lineSaid phrase.confirmation = phrase.line) :
      phrase.reading.schedule? =
        phrase.reading.interpretation.map fun said => (lineSaid said).text := by
    rw [Phrase.schedule?_reading, Phrase.interpretation_reading, Option.map_some, same]
  cases comes with
  | failure complaint => exact absurd rfl sure
  | @recognized phrase found =>
      rw [Phrase.confidence_reading] at sure
      rcases line_fits_or_listsNoWeekday found with ⟨fits, _⟩ | ⟨clock, inRange, rfl, _⟩
      · exact confirmed (lineSaid_confirmation sure fits)
      · exact confirmed (lineSaid_weekdays [] inRange)
  | weekdays unread told named =>
      exact congrArg (fun line => some line.text)
        (lineSaid_weekdaysReading _ (tells _ _ told)).symm
  | days unread told bounds =>
      rw [Phrase.confidence_reading] at sure
      exact confirmed (lineSaid_confirmation sure (days_line_fits bounds (tells _ _ told)))
  | @daily clock unread told =>
      exact congrArg (fun line => some line.text) (lineSaid_daily (tells _ _ told)).symm

theorem Reading.schedule?_withSeconds (reading : Reading) :
    reading.withSeconds.schedule? = reading.schedule?.map ("0 ".toList ++ ·) := by
  unfold schedule? withSeconds
  cases reading.outcome <;> rfl

theorem schedule?_eq_of_interpretWith (tells : teller.InRange)
    (read : interpretWith teller text format = .ok reading) (sure : reading.confidence ≠ .low) :
    reading.schedule? = reading.interpretation.map fun said => (lineSaid said).textIn format := by
  obtain ⟨base, comes, rfl⟩ := exists_comesTo_of_interpretWith read
  cases format with
  | five => exact comes.schedule?_eq tells sure
  | six =>
      have stated : base.schedule? = base.interpretation.map fun said => (lineSaid said).text :=
        comes.schedule?_eq tells sure
      rw [Reading.inFormat, Reading.schedule?_withSeconds, stated, Option.map_map]
      rfl

/-- Texts that are confirmed in the same words come to the same schedule, whichever way they are
read, unless a confidence is low. -/
theorem schedule?_eq_of_interpretation_eq (tells : teller.InRange) (furtherTells : further.InRange)
    (read : interpretWith teller text format = .ok reading)
    (readAgain : interpretWith further other format = .ok again)
    (sure : reading.confidence ≠ .low) (sureAgain : again.confidence ≠ .low)
    (same : reading.interpretation = again.interpretation) :
    reading.schedule? = again.schedule? := by
  rw [schedule?_eq_of_interpretWith tells read sure,
    schedule?_eq_of_interpretWith furtherTells readAgain sureAgain, same]

/-- A rule reads the one text, and the other is only read loosely. -/
theorem schedule?_eq_of_interpretation_eq_politely :
    ∃ reading again, interpret "daily at 9am".toList .six = .ok reading ∧
      interpret "please, daily at 9am".toList .six = .ok again ∧
      reading.confidence = .high ∧ again.confidence = .medium ∧
      reading.schedule? = again.schedule? := by
  have read : interpretWith mentionedTime "daily at 9am".toList .six =
      .ok ((Phrase.daily ⟨9, 0⟩).reading.inFormat .six) := by decide
  have readAgain : interpretWith mentionedTime "please, daily at 9am".toList .six =
      .ok ((dailyReading ⟨9, 0⟩).inFormat .six) := by decide
  have sameSchedule := schedule?_eq_of_interpretation_eq mentionedTime_inRange
    mentionedTime_inRange read readAgain (by decide) (by decide) rfl
  exact ⟨_, _, read, readAgain, rfl, rfl, sameSchedule⟩

end Recurrence
