import Mathlib.Data.List.Forall2
import Recurrence.Proofs.Crontab.Grammar
import Recurrence.Proofs.Crontab.Timetable
import Recurrence.Proofs.Text.LowerCase

namespace Recurrence.Crontab

/-! The field grammar inside the wider grammar of timetables. Every field that the field
grammar accepts can be spread out, and its parts name the values that they stand for, but
for a range from a value to itself, which names the whole field. -/

/-! Characters -/

/-- The characters that the parts of the field grammar are written with. -/
def isPartChar (c : Char) : Bool :=
  Text.isPlainDigit c || c == '*' || c == '-' || c == '/'

theorem Part.Writes.partChars {part : Part} {text : List Char} (writes : part.Writes text) :
    ∀ c ∈ text, isPartChar c = true := by
  have digits {digitText : List Char} {n : Nat} (reads : plainNumber? digitText = some n) :
      ∀ c ∈ digitText, isPartChar c = true := by
    intro c member
    simp [isPartChar, (plainNumber?_digits reads).2 c member]
  have slash : isPartChar '/' = true := by decide
  have hyphen : isPartChar '-' = true := by decide
  have star : isPartChar '*' = true := by decide
  cases writes with
  | star => simpa using star
  | starStep reads => simpa [star, slash] using digits reads
  | range readsFirst readsLast =>
      simp only [List.forall_mem_append, List.forall_mem_cons]
      exact ⟨digits readsFirst, hyphen, digits readsLast⟩
  | rangeStep readsFirst readsLast readsStep =>
      simp only [List.forall_mem_append, List.forall_mem_cons]
      exact ⟨⟨digits readsFirst, hyphen, digits readsLast⟩, slash, digits readsStep⟩
  | single reads => exact digits reads

theorem not_mem_of_partChars {text : List Char} (chars : ∀ c ∈ text, isPartChar c = true)
    {c : Char} (other : isPartChar c = false) : c ∉ text := by
  intro member
  rw [chars c member] at other
  cases other

theorem Part.Writes.ne_nil {part : Part} {text : List Char} (writes : part.Writes text) :
    text ≠ [] := by
  cases writes with
  | star => exact List.cons_ne_nil _ _
  | starStep reads => exact List.cons_ne_nil _ _
  | range readsFirst readsLast => simp
  | rangeStep readsFirst readsLast readsStep => simp
  | single reads => exact (plainNumber?_digits reads).1

theorem toNat_lt_of_isPartChar {c : Char} (isPart : isPartChar c = true) : c.toNat < 65 := by
  simp only [isPartChar, Text.isPlainDigit, Bool.or_eq_true, Bool.and_eq_true,
    decide_eq_true_eq, beq_iff_eq] at isPart
  rcases isPart with ((⟨_, digit⟩ | rfl) | rfl) | rfl
  · exact Nat.lt_of_le_of_lt digit (by decide)
  all_goals decide

theorem lower_of_partChars {text : List Char}
    (chars : ∀ c ∈ text, c = ',' ∨ isPartChar c = true) : Text.lower text = text := by
  refine Text.lower_of_not_capital fun c member => Or.inl ?_
  rcases chars c member with rfl | isPart
  · decide
  · exact toNat_lt_of_isPartChar isPart

/-! Values -/

namespace Field

theorem stepped_eq_climb (first last step : Nat) :
    stepped first last step = (climb first last step).map Nat.cast := by
  unfold stepped climb
  by_cases ordered : first ≤ last
  · have places : (((last : Int) - first) / step).toNat = (last - first) / step := by
      rw [← Int.ofNat_sub ordered, ← Int.natCast_ediv, Int.toNat_natCast]
    rw [if_pos ordered, if_pos (Int.ofNat_le.mpr ordered), places, List.map_map]
    refine List.map_congr_left fun place _ => ?_
    simp
  · rw [if_neg ordered, if_neg (fun less => ordered (Int.ofNat_le.mp less)), List.map_nil]

theorem mem_stepped {first last step n : Nat} :
    (n : Int) ∈ stepped first last step ↔ n ∈ climb first last step := by
  rw [stepped_eq_climb, List.mem_map]
  constructor
  · intro listed
    obtain ⟨value, member, same⟩ := listed
    exact Int.ofNat_inj.mp same ▸ member
  · exact fun member => ⟨n, member, rfl⟩

theorem mem_climb_bounds {first last step n : Nat} (member : n ∈ climb first last step) :
    first ≤ n ∧ n ≤ last := by
  unfold climb at member
  split at member
  · obtain ⟨place, bound, rfl⟩ := List.mem_map.mp member
    rw [List.mem_range] at bound
    have reached : step * place ≤ last - first :=
      (Nat.mul_le_mul_left step (Nat.le_of_lt_succ bound)).trans (Nat.mul_div_le _ _)
    omega
  · cases member

theorem mem_climb_one {first last n : Nat} : n ∈ climb first last 1 ↔ first ≤ n ∧ n ≤ last := by
  refine ⟨mem_climb_bounds, fun bounds => ?_⟩
  unfold climb
  rw [if_pos (bounds.1.trans bounds.2), List.mem_map]
  exact ⟨n - first, List.mem_range.mpr (by rw [Nat.div_one]; omega), by omega⟩

/-- The values of a range that does not run across the end of its field. -/
def spanned (field : Field) (first last step : Nat) : List Nat :=
  if first < last then climb first last step else climb field.least field.greatest step

theorem range?_of_le {field : Field} {first last step : Nat} (positive : 1 ≤ step)
    (least : field.least ≤ first) (ordered : first ≤ last) (greatest : last ≤ field.greatest) :
    field.range? first last step = some (field.spanned first last step) := by
  have within : (field.spanned first last step).all (field.least ≤ ·) = true := by
    simp only [List.all_eq_true, decide_eq_true_eq]
    intro n member
    unfold spanned at member
    split at member
    · exact least.trans (mem_climb_bounds member).1
    · exact (mem_climb_bounds member).1
  unfold range?
  rw [if_neg (by omega)]
  by_cases proper : first < last
  · simp only [spanned, if_pos proper] at within ⊢
    rw [if_pos within]
  · have same : first = last := by omega
    simp only [spanned, if_neg proper, if_pos same] at within ⊢
    rw [if_pos within]

theorem least_lt_greatest (field : Field) : field.least < field.greatest := by
  cases field <;> decide

theorem readTerm?_of_plainNumber? {field : Field} {text : List Char} {n : Nat}
    (reads : plainNumber? text = some n) (bound : n ≤ field.greatest) :
    field.readTerm? text = some n := by
  have notSeven : ¬ (field = .dayOfWeek ∧ n = 7) := by
    intro seven
    obtain ⟨rfl, rfl⟩ := seven
    exact absurd bound (by decide)
  simp [readTerm?, reads, notSeven]

theorem readRange?_of_plainNumber? {field : Field} {firstText lastText : List Char}
    {first last step : Nat} (readsFirst : plainNumber? firstText = some first)
    (readsLast : plainNumber? lastText = some last) (positive : 1 ≤ step)
    (least : field.least ≤ first) (ordered : first ≤ last) (greatest : last ≤ field.greatest) :
    field.readRange? (firstText ++ '-' :: lastText) step =
      some (field.spanned first last step) := by
  have cut : Text.splitAt '-' (firstText ++ '-' :: lastText) = [firstText, lastText] := by
    rw [Text.splitAt_append (not_mem_of_plainNumber? readsFirst (by decide)),
      Text.splitAt_of_not_mem (not_mem_of_plainNumber? readsLast (by decide))]
  simp [readRange?, cut, readTerm?_of_plainNumber? readsFirst (ordered.trans greatest),
    readTerm?_of_plainNumber? readsLast greatest, range?_of_le positive least ordered greatest]

end Field

/-! Parts -/

namespace Part

def entries (field : Field) : Part → List Entry
  | .star => [.every]
  | .starStep step => (Field.climb field.least field.greatest step).map .value
  | .range first last => (field.spanned first last 1).map .value
  | .rangeStep first last step => (field.spanned first last step).map .value
  | .single value => [.value value]

def IsDegenerate : Part → Prop
  | .range first last | .rangeStep first last _ => first = last
  | _ => False

end Part

variable {field : Field} {part : Part} {item : List Char}

theorem readItem?_of_writes (writes : part.Writes item) (fits : part.Fits field.bounds) :
    field.readItem? item = some (part.entries field) := by
  have notLast : item ≠ ['l'] := by
    intro last
    subst last
    exact absurd (writes.partChars 'l' List.mem_cons_self) (by decide)
  have limits := field.least_lt_greatest
  unfold Field.readItem?
  cases writes with
  | star => rfl
  | @starStep step stepText reads =>
      have absent : '/' ∉ ['*'] := by decide
      have cut := Text.splitFirst?_append '/' absent stepText
      rw [List.singleton_append] at cut
      have ranged := Field.range?_of_le fits.1 (Nat.le_refl _) limits.le (Nat.le_refl _)
      rw [Field.spanned, if_pos limits] at ranged
      rw [if_neg (by simp), if_neg (fun both => notLast both.1)]
      simp [cut, reads, ranged, Part.entries]
  | @range first last firstText lastText readsFirst readsLast =>
      obtain ⟨least, ordered, greatest⟩ := fits
      have noStep := slash_not_mem_range readsFirst readsLast
      have ranged := Field.readRange?_of_plainNumber? readsFirst readsLast (Nat.le_refl 1)
        (Int.ofNat_le.mp least) ordered (Int.ofNat_le.mp greatest)
      rw [if_neg (plainNumber?_ne_star readsFirst _), if_neg (fun both => notLast both.1)]
      simp [Text.splitFirst?_eq_none_iff.mpr noStep, ranged, Part.entries]
  | @rangeStep first last step firstText lastText stepText readsFirst readsLast readsStep =>
      obtain ⟨⟨least, ordered, greatest⟩, positive, _⟩ := fits
      have noStep := slash_not_mem_range readsFirst readsLast
      have ranged := Field.readRange?_of_plainNumber? readsFirst readsLast positive
        (Int.ofNat_le.mp least) ordered (Int.ofNat_le.mp greatest)
      have notStar := plainNumber?_ne_star readsFirst ('-' :: lastText)
      rw [List.append_assoc, if_neg (plainNumber?_ne_star readsFirst _), ← List.append_assoc,
        if_neg (fun both => notLast both.1)]
      simp only [Text.splitFirst?_append '/' noStep]
      simp [readsStep, ranged, notStar, Part.entries]
  | @single value text reads =>
      obtain ⟨least, greatest⟩ := fits
      have noStep := not_mem_of_plainNumber? reads (c := '/') (by decide)
      have noRange := not_mem_of_plainNumber? reads (c := '-') (by decide)
      have bounds : field.least ≤ value ∧ value ≤ field.greatest :=
        ⟨Int.ofNat_le.mp least, Int.ofNat_le.mp greatest⟩
      rw [if_neg (by simpa using plainNumber?_ne_star reads []),
        if_neg (fun both => notLast both.1)]
      simp [Text.splitFirst?_eq_none_iff.mpr noStep, noRange,
        Field.readTerm?_of_plainNumber? reads bounds.2, bounds, Part.entries]

theorem Field.readTurn?_eq_none (noLast : 'l' ∉ item) (noMark : '#' ∉ item) :
    readTurn? item = none := by
  unfold readTurn?
  split
  · exact absurd List.mem_cons_self noLast
  · simp [Text.splitFirst?_eq_none_iff.mpr noMark]

theorem readPart?_of_writes (writes : part.Writes item) (fits : part.Fits field.bounds) :
    field.readPart? item = some ⟨part.entries field, []⟩ := by
  have chars := writes.partChars
  have noTurn := Field.readTurn?_eq_none (not_mem_of_partChars chars (c := 'l') (by decide))
    (not_mem_of_partChars chars (c := '#') (by decide))
  simp [Field.readPart?, noTurn, readItem?_of_writes writes fits]

/-! Fields -/

/-- The parts that a field is written as, between its commas. -/
def WrittenAs (field : Field) (text : List Char) (parts : List Part) : Prop :=
  List.Forall₂ Part.Writes parts (Text.splitAt ',' text) ∧ ∀ part ∈ parts, part.Fits field.bounds

variable {text : List Char} {parts : List Part}

theorem mem_insertAscending {value least : Int} {others : List Int} :
    value ∈ insertAscending least others ↔ value = least ∨ value ∈ others := by
  induction others with
  | nil => simp [insertAscending]
  | cons head rest ih =>
      unfold insertAscending
      split
      · simp
      · split
        · simp_all
        · simp only [List.mem_cons, ih]
          tauto

theorem mem_ascending {value : Int} {values : List Int} :
    value ∈ ascending values ↔ value ∈ values := by
  induction values with
  | nil => simp [ascending]
  | cons head rest ih =>
      rw [List.mem_cons]
      exact mem_insertAscending.trans (or_congr_right ih)

theorem expandParts_eq_ok_iff {items : List (List Char)} {bounds : Bounds} {values : List Int} :
    expandParts bounds items = .ok values ↔
      ∃ parts : List Part, List.Forall₂ (fun part item => part.Writes (Text.trim item)) parts items ∧
        (∀ part ∈ parts, part.Fits bounds) ∧ values = parts.flatMap (·.values bounds) := by
  constructor
  · intro accepted
    induction items generalizing values with
    | nil =>
        cases accepted
        exact ⟨[], .nil, by simp, rfl⟩
    | cons item items ih =>
        unfold expandParts at accepted
        cases first : expandPart bounds (Text.trim item) with
        | error fault => simp [first] at accepted
        | ok head =>
            cases rest : expandParts bounds items with
            | error fault => simp [first, rest] at accepted
            | ok further =>
                simp only [first, rest, Except.ok.injEq] at accepted
                obtain ⟨part, writes, fits, rfl⟩ := expandPart_eq_ok_iff.mp first
                obtain ⟨parts, writesParts, fitsParts, rfl⟩ := ih rest
                refine ⟨part :: parts, .cons writes writesParts, ?_, accepted.symm⟩
                exact List.forall_mem_cons.mpr ⟨fits, fitsParts⟩
  · rintro ⟨parts, writes, fits, rfl⟩
    induction writes with
    | nil => rfl
    | @cons part item parts items writesPart _ ih =>
        obtain ⟨fitsPart, fitsParts⟩ := List.forall_mem_cons.mp fits
        have first := expandPart_eq_ok_iff.mpr ⟨part, writesPart, fitsPart, rfl⟩
        simp [expandParts, first, ih fitsParts]

theorem forall₂_writes_trim_iff {items : List (List Char)}
    (solid : ∀ item ∈ items, ∀ c ∈ item, Text.isBlank c = false) :
    List.Forall₂ (fun part item => part.Writes (Text.trim item)) parts items ↔
      List.Forall₂ Part.Writes parts items := by
  induction items generalizing parts with
  | nil => simp
  | cons item items ih =>
      obtain ⟨solidItem, solidItems⟩ := List.forall_mem_cons.mp solid
      simp only [List.forall₂_cons_right_iff, ih solidItems, Text.trim_of_solid solidItem]

theorem map_ascending_eq_ok_iff {read : Except FieldFault (List Int)} {values : List Int} :
    read.map ascending = .ok values ↔ ∃ found, read = .ok found ∧ values = ascending found := by
  cases read <;> simp [Except.map, eq_comm]

/-- A field that is accepted is written as parts that fit, and it stands for what they stand
for. -/
theorem expandField_ok {bounds : Bounds} (solid : ∀ c ∈ text, Text.isBlank c = false)
    {values : List Int} (accepted : expandField bounds text = .ok values) :
    ∃ parts, (List.Forall₂ Part.Writes parts (Text.splitAt ',' text) ∧
        ∀ part ∈ parts, part.Fits bounds) ∧
      ∀ value, value ∈ values ↔ ∃ part ∈ parts, value ∈ part.values bounds := by
  have solidItems : ∀ item ∈ Text.splitAt ',' text, ∀ c ∈ item, Text.isBlank c = false :=
    fun item cut c member => solid c (Text.mem_of_mem_splitAt cut c member).1
  unfold expandField at accepted
  split at accepted
  · obtain ⟨found, expanded, rfl⟩ := map_ascending_eq_ok_iff.mp accepted
    obtain ⟨parts, writes, fits, rfl⟩ := expandParts_eq_ok_iff.mp expanded
    refine ⟨parts, ⟨(forall₂_writes_trim_iff solidItems).mp writes, fits⟩, fun value => ?_⟩
    rw [mem_ascending, List.mem_flatMap]
  · rename_i noComma
    obtain ⟨part, writes, fits, rfl⟩ := expandPart_eq_ok_iff.mp accepted
    refine ⟨[part], ⟨?_, by simpa using fits⟩, by simp⟩
    rw [Text.splitAt_of_not_mem (by simpa using noComma)]
    exact .cons writes .nil

theorem expandField_of_written {bounds : Bounds} (solid : ∀ c ∈ text, Text.isBlank c = false)
    (writes : List.Forall₂ Part.Writes parts (Text.splitAt ',' text))
    (fits : ∀ part ∈ parts, part.Fits bounds) : ∃ values, expandField bounds text = .ok values := by
  have solidItems : ∀ item ∈ Text.splitAt ',' text, ∀ c ∈ item, Text.isBlank c = false :=
    fun item cut c member => solid c (Text.mem_of_mem_splitAt cut c member).1
  unfold expandField
  split
  · rw [expandParts_eq_ok_iff.mpr ⟨parts, (forall₂_writes_trim_iff solidItems).mpr writes, fits, rfl⟩]
    exact ⟨_, rfl⟩
  · rename_i noComma
    rw [Text.splitAt_of_not_mem (by simpa using noComma)] at writes
    cases writes with
    | cons writesPart rest =>
        cases rest
        exact ⟨_, expandPart_eq_ok_iff.mpr ⟨_, writesPart, fits _ List.mem_cons_self, rfl⟩⟩

theorem exists_left_of_forall₂ {relates : α → β → Prop} {lefts : List α} {rights : List β}
    (paired : List.Forall₂ relates lefts rights) {right : β} (member : right ∈ rights) :
    ∃ left ∈ lefts, relates left right := by
  induction paired with
  | nil => cases member
  | cons related _ ih =>
      rcases List.mem_cons.mp member with rfl | further
      · exact ⟨_, List.mem_cons_self, related⟩
      · obtain ⟨left, inLefts, relatedLeft⟩ := ih further
        exact ⟨left, List.mem_cons_of_mem _ inLefts, relatedLeft⟩

theorem exists_right_of_forall₂ {relates : α → β → Prop} {lefts : List α} {rights : List β}
    (paired : List.Forall₂ relates lefts rights) {left : α} (member : left ∈ lefts) :
    ∃ right ∈ rights, relates left right :=
  exists_left_of_forall₂ (List.Forall₂.flip paired) member

theorem exists_written {bounds : Bounds} {items : List (List Char)}
    (written : ∀ item ∈ items, ∃ part : Part, part.Writes item ∧ part.Fits bounds) :
    ∃ parts, List.Forall₂ Part.Writes parts items ∧ ∀ part ∈ parts, part.Fits bounds := by
  induction items with
  | nil => exact ⟨[], .nil, fun _ member => by cases member⟩
  | cons item items ih =>
      obtain ⟨⟨part, writes, fits⟩, further⟩ := List.forall_mem_cons.mp written
      obtain ⟨parts, writesParts, fitsParts⟩ := ih further
      exact ⟨part :: parts, .cons writes writesParts, List.forall_mem_cons.mpr ⟨fits, fitsParts⟩⟩

/-- A field is accepted if each of its items is. -/
theorem exists_expandField_iff {bounds : Bounds} (solid : ∀ c ∈ text, Text.isBlank c = false) :
    (∃ values, expandField bounds text = .ok values) ↔
      ∀ item ∈ Text.splitAt ',' text, ∃ values, expandPart bounds item = .ok values := by
  constructor
  · intro accepted item member
    obtain ⟨values, accepted⟩ := accepted
    obtain ⟨parts, ⟨writes, fits⟩, _⟩ := expandField_ok solid accepted
    obtain ⟨part, listed, writesPart⟩ := exists_left_of_forall₂ writes member
    exact ⟨_, expandPart_eq_ok_iff.mpr ⟨part, writesPart, fits part listed, rfl⟩⟩
  · intro accepted
    have written : ∀ item ∈ Text.splitAt ',' text,
        ∃ part : Part, part.Writes item ∧ part.Fits bounds := by
      intro item member
      obtain ⟨values, accepted⟩ := accepted item member
      obtain ⟨part, writes, fits, _⟩ := expandPart_eq_ok_iff.mp accepted
      exact ⟨part, writes, fits⟩
    obtain ⟨parts, writes, fits⟩ := exists_written written
    exact expandField_of_written solid writes fits

/-! Spreads -/

theorem WrittenAs.chars (written : WrittenAs field text parts) :
    ∀ c ∈ text, c = ',' ∨ isPartChar c = true := by
  intro c member
  refine (Text.exists_piece_of_mem member).imp_right fun ⟨item, cut, inItem⟩ => ?_
  obtain ⟨part, _, writes⟩ := exists_left_of_forall₂ written.1 cut
  exact writes.partChars c inItem

theorem mapM_readPart? {items : List (List Char)}
    (writes : List.Forall₂ Part.Writes parts items)
    (fits : ∀ part ∈ parts, part.Fits field.bounds) :
    items.mapM field.readPart? = some (parts.map fun part => ⟨part.entries field, []⟩) := by
  induction writes with
  | nil => rfl
  | cons writesPart _ ih =>
      rw [List.mapM_cons, readPart?_of_writes writesPart (fits _ List.mem_cons_self),
        ih fun part member => fits part (List.mem_cons_of_mem _ member)]
      rfl

def partEntries (field : Field) (parts : List Part) : List Entry :=
  (parts.flatMap (·.entries field)).eraseDups

/-- A field of the field grammar names what its parts name, and no turns. -/
theorem spread_of_writtenAs (written : WrittenAs field text parts) :
    field.spread (Text.lower text) = .ok ⟨partEntries field parts, []⟩ := by
  have chars := written.chars
  have absent {c : Char} (notComma : c ≠ ',') (other : isPartChar c = false) : c ∉ text := by
    intro member
    rcases chars c member with comma | isPart
    · exact notComma comma
    · rw [isPart] at other
      cases other
  have notQuestion : text ≠ ['?'] := by
    intro question
    subst question
    exact absent (by decide) (by decide) List.mem_cons_self
  have notChosen : field.chosen? text = none := by
    unfold Field.chosen?
    split
    · exact absurd List.mem_cons_self (absent (c := 'r') (by decide) (by decide))
    · rfl
  unfold Field.spread
  rw [lower_of_partChars chars, if_neg (fun both => notQuestion both.1), notChosen]
  simp only [mapM_readPart? written.1 written.2]
  simp [partEntries, List.flatMap_map]

theorem Timetable.ofFields_of_writtenAs
    {minuteText hourText dayText monthText weekdayText : List Char}
    {minutes hours days months weekdays : List Part}
    (minute : WrittenAs .minute minuteText minutes) (hour : WrittenAs .hour hourText hours)
    (day : WrittenAs .dayOfMonth dayText days) (month : WrittenAs .month monthText months)
    (weekday : WrittenAs .dayOfWeek weekdayText weekdays) :
    ofFields minuteText hourText dayText monthText weekdayText =
      .ok (ofSpreads dayText weekdayText ⟨partEntries .minute minutes, []⟩
        ⟨partEntries .hour hours, []⟩ ⟨partEntries .dayOfMonth days, []⟩
        ⟨partEntries .month months, []⟩ ⟨partEntries .dayOfWeek weekdays, []⟩) :=
  ofFields_eq_ok_iff.mpr ⟨_, _, _, _, _, spread_of_writtenAs minute, spread_of_writtenAs hour,
    spread_of_writtenAs day, spread_of_writtenAs month, spread_of_writtenAs weekday, rfl, rfl⟩

theorem Part.mem_entries_iff (fits : part.Fits field.bounds) (proper : ¬ part.IsDegenerate)
    {n : Nat} :
    ((field.least ≤ n ∧ n ≤ field.greatest) ∧
        (.every ∈ part.entries field ∨ .value n ∈ part.entries field)) ↔
      (n : Int) ∈ part.values field.bounds := by
  have within {first last step : Nat} (least : field.least ≤ first)
      (greatest : last ≤ field.greatest) :
      ((field.least ≤ n ∧ n ≤ field.greatest) ∧
        (.every ∈ (Field.climb first last step).map Entry.value ∨
          .value n ∈ (Field.climb first last step).map Entry.value)) ↔
        (n : Int) ∈ stepped first last step := by
    rw [Field.mem_stepped]
    simp only [List.mem_map, reduceCtorEq, and_false, exists_false, Entry.value.injEq,
      exists_eq_right, false_or, and_iff_right_iff_imp]
    intro member
    have bounds := Field.mem_climb_bounds member
    exact ⟨least.trans bounds.1, bounds.2.trans greatest⟩
  have spanned {first last : Nat} (ordered : first ≤ last) (different : first ≠ last)
      (step : Nat) : field.spanned first last step = Field.climb first last step := by
    rw [Field.spanned, if_pos (Nat.lt_of_le_of_ne ordered different)]
  cases part with
  | star =>
      change _ ↔ (n : Int) ∈ stepped field.least field.greatest (1 : Nat)
      rw [Field.mem_stepped, Field.mem_climb_one]
      simp [Part.entries]
  | starStep step => exact within (Nat.le_refl _) (Nat.le_refl _)
  | range first last =>
      obtain ⟨least, ordered, greatest⟩ := fits
      simp only [Part.entries, spanned ordered proper 1]
      exact within (Int.ofNat_le.mp least) (Int.ofNat_le.mp greatest)
  | rangeStep first last step =>
      obtain ⟨⟨least, ordered, greatest⟩, _⟩ := fits
      simp only [Part.entries, spanned ordered proper step]
      exact within (Int.ofNat_le.mp least) (Int.ofNat_le.mp greatest)
  | single value =>
      obtain ⟨least, greatest⟩ := fits
      have bounds : field.least ≤ value ∧ value ≤ field.greatest :=
        ⟨Int.ofNat_le.mp least, Int.ofNat_le.mp greatest⟩
      simp only [Part.entries, Part.values, List.mem_singleton, reduceCtorEq, false_or,
        Entry.value.injEq, Int.ofNat_inj, and_iff_right_iff_imp]
      intro same
      subst same
      exact bounds

theorem mem_partEntries {entry : Entry} :
    entry ∈ partEntries field parts ↔ ∃ part ∈ parts, entry ∈ part.entries field := by
  rw [partEntries, List.mem_eraseDups, List.mem_flatMap]

/-- A field whose ranges are proper names the values that it stands for. -/
theorem mem_values_partEntries (fits : ∀ part ∈ parts, part.Fits field.bounds)
    (proper : ∀ part ∈ parts, ¬ part.IsDegenerate) {n : Nat} :
    n ∈ field.values (partEntries field parts) ↔
      ∃ part ∈ parts, (n : Int) ∈ part.values field.bounds := by
  simp only [Field.mem_values, mem_partEntries]
  constructor
  · intro named
    obtain ⟨bounds, ⟨part, member, named⟩ | ⟨part, member, named⟩⟩ := named
    · exact ⟨part, member,
        (Part.mem_entries_iff (fits part member) (proper part member)).mp ⟨bounds, Or.inl named⟩⟩
    · exact ⟨part, member,
        (Part.mem_entries_iff (fits part member) (proper part member)).mp ⟨bounds, Or.inr named⟩⟩
  · intro named
    obtain ⟨part, member, stands⟩ := named
    obtain ⟨bounds, named⟩ :=
      (Part.mem_entries_iff (fits part member) (proper part member)).mpr stands
    exact ⟨bounds, named.imp (fun every => ⟨part, member, every⟩) fun value => ⟨part, member, value⟩⟩

end Recurrence.Crontab
