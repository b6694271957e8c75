import Recurrence.Proofs.Crontab.Templates
import Recurrence.Proofs.Crontab.Verdicts

namespace Recurrence.Crontab

/-! Ranges from a number to itself. The field grammar takes one for the number, but a timetable
reads it as the range over all values of its field. So one may stand in for its number only where
the other items of the field name these values anyway. -/

variable {field : Field} {number item other : List Char} {bounds : Bounds} {values : List Int}

def pointRange (number : List Char) : List Char :=
  number ++ '-' :: number

/-- The range from the least value of a field to the greatest. -/
def Field.wholeRange (field : Field) : List Char :=
  Text.decimal field.least ++ '-' :: Text.decimal field.greatest

/-! The field grammar -/

theorem expandPart_number_iff (digits : IsDigits number) :
    expandPart bounds number = .ok values ↔
      ∃ n : Nat, plainNumber? number = some n ∧ (bounds.min ≤ n ∧ (n : Int) ≤ bounds.max) ∧
        values = [(n : Int)] := by
  rw [expandPart_eq_ok_iff]
  constructor
  · intro written
    obtain ⟨part, writes, fits, rfl⟩ := written
    cases writes with
    | single reads => exact ⟨_, reads, fits, rfl⟩
    | star => exact absurd (digits.2 '*' (by simp)) (by decide)
    | starStep => exact absurd (digits.2 '*' (by simp)) (by decide)
    | range => exact absurd (digits.2 '-' (by simp)) (by decide)
    | rangeStep => exact absurd (digits.2 '-' (by simp)) (by decide)
  · intro read
    obtain ⟨n, reads, fits, rfl⟩ := read
    exact ⟨.single n, .single reads, fits, rfl⟩

theorem stepped_self (n step : Int) : stepped n n step = [n] := by
  simp [stepped]

theorem expandPart_pointRange_iff (digits : IsDigits number) :
    expandPart bounds (pointRange number) = .ok values ↔ expandPart bounds number = .ok values := by
  have noHyphen : '-' ∉ number := digits.not_mem (by decide)
  rw [expandPart_number_iff digits, expandPart_eq_ok_iff]
  constructor
  · intro written
    obtain ⟨part, writes, fits, rfl⟩ := written
    have absent {c : Char} (noDigit : Text.isPlainDigit c = false) (other : c ≠ '-') :
        c ∉ pointRange number := by
      simp [pointRange, digits.not_mem noDigit, other]
    generalize same : pointRange number = text at writes absent
    cases writes with
    | star => exact absurd List.mem_cons_self (absent (by decide) (by decide))
    | starStep => exact absurd List.mem_cons_self (absent (by decide) (by decide))
    | rangeStep => exact absurd (by simp) (absent (c := '/') (by decide) (by decide))
    | single reads =>
        exact absurd (same ▸ by simp [pointRange])
          (not_mem_of_plainNumber? reads (c := '-') (by decide))
    | range readsFirst readsLast =>
        obtain ⟨rfl, rfl⟩ := Text.eq_of_append_eq_append noHyphen
          (not_mem_of_plainNumber? readsFirst (by decide)) same
        rw [readsFirst, Option.some.injEq] at readsLast
        subst readsLast
        exact ⟨_, readsFirst, ⟨fits.1, fits.2.2⟩, stepped_self _ 1⟩
  · intro read
    obtain ⟨n, reads, fits, rfl⟩ := read
    exact ⟨.range n n, .range reads reads, ⟨fits.1, le_refl n, fits.2⟩, (stepped_self _ 1).symm⟩

/-- Alone in its field, the range from a number to itself is read as the number. -/
theorem expandField_pointRange {n : Nat} (reads : plainNumber? number = some n)
    (least : bounds.min ≤ n) (greatest : (n : Int) ≤ bounds.max) :
    expandField bounds number = .ok [(n : Int)] ∧
      expandField bounds (pointRange number) = .ok [(n : Int)] := by
  have digits : IsDigits number := plainNumber?_digits reads
  have noComma : ',' ∉ number := digits.not_mem (by decide)
  have asPart : expandPart bounds number = .ok [(n : Int)] :=
    (expandPart_number_iff digits).mpr ⟨n, reads, ⟨least, greatest⟩, rfl⟩
  constructor
  · rw [expandField, if_neg (by simpa using noComma), asPart]
  · rw [expandField, if_neg (by simpa [pointRange] using noComma),
      (expandPart_pointRange_iff digits).mpr asPart]

theorem expandParts_cons_eq_ok_iff {part : List Char} {others : List (List Char)} :
    expandParts bounds (part :: others) = .ok values ↔
      ∃ first further, expandPart bounds (Text.trim part) = .ok first ∧
        expandParts bounds others = .ok further ∧ values = first ++ further := by
  rw [expandParts]
  cases expandPart bounds (Text.trim part) with
  | error fault => simp
  | ok first => cases expandParts bounds others <;> simp [eq_comm]

theorem expandParts_congr {front back : List (List Char)}
    (same : ∀ values, expandPart bounds (Text.trim item) = .ok values ↔
      expandPart bounds (Text.trim other) = .ok values) :
    expandParts bounds (front ++ item :: back) = .ok values ↔
      expandParts bounds (front ++ other :: back) = .ok values := by
  induction front generalizing values with
  | nil => simp only [List.nil_append, expandParts_cons_eq_ok_iff, same]
  | cons part front ih => simp only [List.cons_append, expandParts_cons_eq_ok_iff, ih]

theorem Template.comma_mem_fieldText_iff (template : Template) (noComma : ',' ∉ item) :
    ',' ∈ template.fieldText item ↔ ¬ (template.before = [] ∧ template.behind = []) := by
  rw [← not_iff_not, not_not]
  constructor
  · intro uncut
    have cut := Text.splitAt_of_not_mem uncut
    rw [splitAt_fieldText noComma] at cut
    have length := congrArg List.length cut
    simp only [List.length_append, List.length_cons, List.length_nil] at length
    exact ⟨List.eq_nil_of_length_eq_zero (by omega), List.eq_nil_of_length_eq_zero (by omega)⟩
  · intro alone
    rw [fieldText, alone.1, alone.2, List.nil_append, List.intercalate_singleton]
    exact noComma

theorem Template.expandField_congr {template : Template} (noComma : ',' ∉ item)
    (noOtherComma : ',' ∉ other)
    (same : ∀ values, expandPart bounds item = .ok values ↔ expandPart bounds other = .ok values)
    (solid : Text.trim item = item) (otherSolid : Text.trim other = other) :
    expandField bounds (template.fieldText item) = .ok values ↔
      expandField bounds (template.fieldText other) = .ok values := by
  have comma := comma_mem_fieldText_iff template noComma
  have otherComma := comma_mem_fieldText_iff template noOtherComma
  simp only [expandField, List.contains_iff_mem, comma, otherComma]
  by_cases alone : template.before = [] ∧ template.behind = []
  · rw [if_neg (not_not_intro alone), if_neg (not_not_intro alone), fieldText, fieldText, alone.1,
      alone.2, List.nil_append, List.nil_append, List.intercalate_singleton,
      List.intercalate_singleton, same]
  · have parts {values : List Int} :
        expandParts bounds (template.before ++ item :: template.behind) = .ok values ↔
          expandParts bounds (template.before ++ other :: template.behind) = .ok values :=
      expandParts_congr (by simpa only [solid, otherSolid] using same)
    rw [if_pos alone, if_pos alone, splitAt_fieldText noComma, splitAt_fieldText noOtherComma,
      map_ascending_eq_ok_iff, map_ascending_eq_ok_iff]
    exact exists_congr fun found => and_congr_left fun _ => parts

/-! Numbers and their ranges as items -/

/-- What numbers and ranges of numbers have in common. -/
structure IsNumeric (item : List Char) : Prop where
  digit : item.head?.any Text.isPlainDigit = true
  chars : ∀ c ∈ item, Text.isPlainDigit c = true ∨ c = '-'

theorem IsDigits.isNumeric (digits : IsDigits number) : IsNumeric number where
  digit := by
    obtain ⟨c, rest, rfl⟩ := List.exists_cons_of_ne_nil digits.1
    exact digits.2 c List.mem_cons_self
  chars c member := Or.inl (digits.2 c member)

theorem IsDigits.isNumeric_pointRange (digits : IsDigits number) :
    IsNumeric (pointRange number) where
  digit := by
    obtain ⟨c, rest, rfl⟩ := List.exists_cons_of_ne_nil digits.1
    exact digits.2 c List.mem_cons_self
  chars := by
    simp only [pointRange, List.forall_mem_append, List.forall_mem_cons]
    exact ⟨digits.isNumeric.chars, Or.inr trivial, digits.isNumeric.chars⟩

theorem Field.isNumeric_wholeRange (field : Field) : IsNumeric field.wholeRange where
  digit := by cases field <;> decide
  chars := by
    have chars : field.wholeRange.all (fun c => Text.isPlainDigit c || c == '-') = true := by
      cases field <;> decide
    simpa using chars

namespace IsNumeric

theorem not_mem (numeric : IsNumeric item) {c : Char} (noDigit : Text.isPlainDigit c = false)
    (other : c ≠ '-') : c ∉ item := by
  intro member
  rcases numeric.chars c member with digit | hyphen
  · rw [digit] at noDigit
    cases noDigit
  · exact other hyphen

theorem noComma (numeric : IsNumeric item) : ',' ∉ item :=
  numeric.not_mem (by decide) (by decide)

theorem partChars (numeric : IsNumeric item) : ∀ c ∈ item, isPartChar c = true := by
  intro c member
  rcases numeric.chars c member with digit | rfl
  · exact isPartChar_of_isPlainDigit digit
  · decide

theorem lower (numeric : IsNumeric item) : Text.lower item = item :=
  lower_of_partChars fun c member => Or.inr (numeric.partChars c member)

theorem trim (numeric : IsNumeric item) : Text.trim item = item :=
  Text.trim_of_solid fun c member => isBlank_of_isPartChar (numeric.partChars c member)

/-- No piece of the item is an operator, since none has another character than digits. -/
theorem noOperator (numeric : IsNumeric item) :
    ∀ part ∈ Text.splitAt '/' item, ∀ piece ∈ Text.splitAt '-' part, operatorOf? piece = none := by
  rw [Text.splitAt_of_not_mem (numeric.not_mem (by decide) (by decide)), List.forall_mem_singleton]
  intro piece cut
  have digits : ∀ c ∈ piece, Text.isPlainDigit c = true := by
    intro c member
    obtain ⟨inItem, noHyphen⟩ := Text.mem_of_mem_splitAt cut c member
    exact (numeric.chars c inItem).resolve_right noHyphen
  have behind : piece.dropWhile Text.isPlainDigit = [] := List.dropWhile_eq_nil_iff.mpr digits
  rw [operatorOf?, behind]
  rfl

end IsNumeric

/-! What the timetable reads -/

theorem IsNumeric.readPart?_eq (numeric : IsNumeric item) :
    field.readPart? item = (field.readItem? item).map (⟨·, []⟩) := by
  have noTurn := Field.readTurn?_eq_none (numeric.not_mem (c := 'l') (by decide) (by decide))
    (numeric.not_mem (c := '#') (by decide) (by decide))
  simp [Field.readPart?, noTurn]

/-- Without a step, a numeric item is a range or a number. -/
theorem IsNumeric.readItem?_eq (numeric : IsNumeric item) :
    field.readItem? item =
      if item.contains '-' then (field.readRange? item 1).map (·.map .value)
      else (field.readTerm? item).bind fun value =>
        if field.least ≤ value ∧ value ≤ field.greatest then some [.value value] else none := by
  have absent {c : Char} (noDigit : Text.isPlainDigit c = false) (other : c ≠ '-')
      {rest : List Char} : item ≠ c :: rest := by
    rintro rfl
    exact numeric.not_mem noDigit other List.mem_cons_self
  exact Field.readItem?_of_not_mem (numeric.not_mem (by decide) (by decide))
    (absent (by decide) (by decide)) fun both => absent (by decide) (by decide) both.1

theorem readPart?_number {part : Spread} (digits : IsDigits number)
    (reads : field.readPart? number = some part) :
    ∃ n, field.readTerm? number = some n ∧ (field.least ≤ n ∧ n ≤ field.greatest) ∧
      part = ⟨[.value n], []⟩ := by
  have noHyphen : '-' ∉ number := digits.not_mem (by decide)
  rw [digits.isNumeric.readPart?_eq, digits.isNumeric.readItem?_eq,
    if_neg (by simpa using noHyphen)] at reads
  obtain ⟨entries, readItem, rfl⟩ := Option.map_eq_some_iff.mp reads
  obtain ⟨n, term, value⟩ := Option.bind_eq_some_iff.mp readItem
  split at value
  · rename_i bounds
    cases value
    exact ⟨n, term, bounds, rfl⟩
  · cases value

/-- The ranges over a whole field: from one end to the other, or from a value to itself. -/
theorem range?_whole {first last : Nat} (firstBound : first ≤ field.greatest)
    (lastBound : last ≤ field.greatest)
    (whole : first = last ∨ first = field.least ∧ last = field.greatest) :
    field.range? first last 1 = some (Field.climb field.least field.greatest 1) := by
  have within : (Field.climb field.least field.greatest 1).all (field.least ≤ ·) = true := by
    simp only [List.all_eq_true, decide_eq_true_eq]
    exact fun n member => (Field.mem_climb_bounds member).1
  have ordered := field.least_lt_greatest
  rw [Field.range?, if_neg (by omega)]
  rcases whole with rfl | ⟨rfl, rfl⟩
  · simp only [lt_irrefl, if_false, if_true, within]
  · simp only [ordered, if_true, within]

theorem readPart?_pointRange {n : Nat} (digits : IsDigits number)
    (reads : field.readTerm? number = some n) (bound : n ≤ field.greatest) :
    field.readPart? (pointRange number) = some field.wholeSpread := by
  rw [digits.isNumeric_pointRange.readPart?_eq, digits.isNumeric_pointRange.readItem?_eq,
    if_pos (by simp [pointRange]), pointRange, Field.readRange?_of_readTerm? reads reads,
    range?_whole bound bound (Or.inl rfl)]
  rfl

theorem readPart?_wholeRange : field.readPart? field.wholeRange = some field.wholeSpread := by
  have reads : field.readTerm? (Text.decimal field.least) = some field.least ∧
      field.readTerm? (Text.decimal field.greatest) = some field.greatest := by
    cases field <;> decide
  rw [field.isNumeric_wholeRange.readPart?_eq, field.isNumeric_wholeRange.readItem?_eq,
    if_pos (by simp [Field.wholeRange]), Field.wholeRange,
    Field.readRange?_of_readTerm? reads.1 reads.2,
    range?_whole field.least_lt_greatest.le le_rfl (Or.inr ⟨rfl, rfl⟩)]
  rfl

namespace Template

variable {template : Template} {spread : Spread}

theorem splitAt_lower_fieldText (numeric : IsNumeric item) :
    Text.splitAt ',' (Text.lower (template.fieldText item)) =
      template.before.map Text.lower ++ item :: template.behind.map Text.lower := by
  rw [Text.splitAt_lower, splitAt_fieldText numeric.noComma,
    List.map_append, List.map_cons, numeric.lower]

/-- What the items around the open one name. -/
structure ReadAround (template : Template) (front back : List Spread) : Prop where
  before : (template.before.map Text.lower).mapM template.field.readPart? = some front
  behind : (template.behind.map Text.lower).mapM template.field.readPart? = some back

variable {front back : List Spread} {part : Spread}

theorem ReadAround.spread_eq (around : template.ReadAround front back) (numeric : IsNumeric item)
    (reads : template.field.readPart? item = some part) :
    template.field.spread (Text.lower (template.fieldText item)) =
      .ok (.joined (front ++ part :: back)) := by
  refine Field.spread_of_parts ?_
  rw [splitAt_lower_fieldText numeric, List.mapM_append, List.mapM_cons, around.before, reads,
    around.behind]
  rfl

theorem exists_readAround (numeric : IsNumeric item)
    (read : template.field.spread (Text.lower (template.fieldText item)) = .ok spread) :
    ∃ front part back, template.ReadAround front back ∧
      template.field.readPart? item = some part ∧ spread = .joined (front ++ part :: back) := by
  have listed : item ∈ Text.splitAt ',' (Text.lower (template.fieldText item)) := by
    rw [splitAt_lower_fieldText numeric]
    exact List.mem_append_right _ List.mem_cons_self
  obtain ⟨parts, readParts, rfl⟩ := Field.exists_parts_of_spread read listed numeric.digit
  rw [splitAt_lower_fieldText numeric, List.mapM_append, List.mapM_cons] at readParts
  obtain ⟨front, readFront, readParts⟩ := Option.bind_eq_some_iff.mp readParts
  obtain ⟨others, readOthers, joined⟩ := Option.bind_eq_some_iff.mp readParts
  obtain ⟨part, reads, readOthers⟩ := Option.bind_eq_some_iff.mp readOthers
  obtain ⟨back, readBack, rest⟩ := Option.bind_eq_some_iff.mp readOthers
  cases rest
  cases joined
  exact ⟨front, part, back, ⟨readFront, readBack⟩, reads, rfl⟩

/-! Two fillings of a template -/

theorem star_mem_iff (numeric : IsNumeric item) :
    '*' ∈ Text.lower (template.fieldText item) ↔
      ∃ piece ∈ (template.before ++ template.behind).map Text.lower, '*' ∈ piece := by
  have noStar : '*' ∉ item := numeric.not_mem (by decide) (by decide)
  have inPieces : '*' ∈ Text.lower (template.fieldText item) ↔
      ∃ piece ∈ Text.splitAt ',' (Text.lower (template.fieldText item)), '*' ∈ piece :=
    ⟨fun member => (Text.exists_piece_of_mem member).resolve_left (by decide),
      fun inPiece => inPiece.elim fun piece star => (Text.mem_of_mem_splitAt star.1 '*' star.2).1⟩
  rw [inPieces, splitAt_lower_fieldText numeric]
  simp only [List.map_append, List.mem_append, List.mem_cons]
  constructor
  · intro inPiece
    obtain ⟨piece, inFront | rfl | further, star⟩ := inPiece
    · exact ⟨piece, Or.inl inFront, star⟩
    · exact absurd star noStar
    · exact ⟨piece, Or.inr further, star⟩
  · intro inPiece
    obtain ⟨piece, around, star⟩ := inPiece
    exact ⟨piece, around.imp_right Or.inr, star⟩

/-- Fillings by numeric items that are read as spreads which cannot be told apart. -/
theorem ReadAround.readAlike {spread otherSpread : Spread}
    (around : template.ReadAround front back) (numeric : IsNumeric item)
    (otherNumeric : IsNumeric other) (reads : template.field.readPart? item = some spread)
    (otherReads : template.field.readPart? other = some otherSpread)
    (alike : (Spread.joined (front ++ spread :: back)).Alike template.field
      (.joined (front ++ otherSpread :: back))) : template.ReadAlike item other where
  spreads one another read readOther := by
    rw [around.spread_eq numeric reads] at read
    rw [around.spread_eq otherNumeric otherReads] at readOther
    cases read
    cases readOther
    exact alike
  stars := by
    rw [Bool.eq_iff_iff, List.contains_iff_mem, List.contains_iff_mem, star_mem_iff numeric,
      star_mem_iff otherNumeric]

theorem noOperator_of_numeric (numeric : IsNumeric item) (otherNumeric : IsNumeric other)
    (noOperator : ∀ piece ∈ fieldPieces (template.fieldText item), operatorOf? piece = none) :
    ∀ piece ∈ fieldPieces (template.fieldText other), operatorOf? piece = none := by
  rw [fieldPieces, splitAt_fieldText numeric.noComma] at noOperator
  rw [fieldPieces, splitAt_fieldText otherNumeric.noComma]
  simp only [List.forall_mem_flatMap, List.forall_mem_append, List.forall_mem_cons] at noOperator ⊢
  exact ⟨noOperator.1, otherNumeric.noOperator, noOperator.2.2⟩

/-! Turns beside a star -/

def others (template : Template) : List (List Char) :=
  (template.before ++ template.behind).map Text.lower

end Template

/-- One of the items names the weekday, and in one turn only. -/
def IsInTurn (items : List (List Char)) (day : Nat) : Prop :=
  ∃ item ∈ items, ∃ days turn, Field.readTurn? item = some (days, turn) ∧ day ∈ days

/-- Besides the open item, a field of weekdays names every day, and some but not all of them in
one turn only. -/
structure Template.MixesTurns (template : Template) : Prop where
  ofWeek : template.field = .dayOfWeek
  star : ['*'] ∈ template.others
  some : ∃ day, IsInTurn template.others day
  notAll : ∃ day ≤ Field.dayOfWeek.greatest, ¬ IsInTurn template.others day

namespace Template

variable {template : Template} {front back : List Spread}

theorem ReadAround.mem_iff (around : template.ReadAround front back) {part : Spread} :
    part ∈ front ++ back ↔
      ∃ item ∈ template.others, template.field.readPart? item = some part := by
  simp only [List.mem_append, mem_of_mapM around.before, mem_of_mapM around.behind, others,
    List.map_append, or_and_right, exists_or]

theorem ReadAround.turns_iff (around : template.ReadAround front back)
    (ofWeek : template.field = .dayOfWeek) {day : Nat} :
    (∃ turn ∈ (front ++ back).flatMap (·.turns), turn.1 = day) ↔ IsInTurn template.others day := by
  simp only [List.mem_flatMap, around.mem_iff, ofWeek]
  constructor
  · rintro ⟨⟨_, turn⟩, ⟨part, ⟨item, member, reads⟩, turned⟩, rfl⟩
    unfold Field.readPart? at reads
    rw [if_pos rfl] at reads
    split at reads
    · rename_i days _ read
      cases reads
      obtain ⟨day, listed, same⟩ := List.mem_map.mp turned
      cases same
      exact ⟨item, member, days, _, read, listed⟩
    · obtain ⟨entries, _, rfl⟩ := Option.map_eq_some_iff.mp reads
      cases turned
  · rintro ⟨item, member, days, turn, read, listed⟩
    refine ⟨(day, turn), ⟨⟨days.map .value, days.map (·, turn)⟩, ⟨item, member, ?_⟩,
      List.mem_map_of_mem listed⟩, rfl⟩
    simp [Field.readPart?, read]

theorem ReadAround.star_iff (around : template.ReadAround front back) :
    (∃ part ∈ front ++ back, .every ∈ part.entries) ↔ ['*'] ∈ template.others := by
  simp only [around.mem_iff]
  constructor
  · rintro ⟨part, ⟨item, member, reads⟩, every⟩
    cases isOf_of_readPart? reads every with
    | every star => exact star ▸ member
  · intro star
    have reads : template.field.readPart? ['*'] = some ⟨[.every], []⟩ := by
      cases template.field <;> rfl
    exact ⟨_, ⟨['*'], star, reads⟩, List.mem_singleton_self _⟩

/-- With the range over the whole week among its items, a field of weekdays names days and at most
everything else. -/
theorem ReadAround.every_or_value (around : template.ReadAround front back)
    (ofWeek : template.field = .dayOfWeek) {entry : Entry}
    (member : entry ∈ (Spread.joined (front ++ template.field.wholeSpread :: back)).entries) :
    entry = .every ∨
      ∃ n, entry = .value n ∧ template.field.least ≤ n ∧ n ≤ template.field.greatest := by
  rcases mem_entries_joined_whole.mp member with whole | ⟨part, listed, named⟩
  · exact Or.inr whole
  · obtain ⟨item, _, reads⟩ := around.mem_iff.mp listed
    cases isOf_of_readPart? reads named with
    | every => exact Or.inl rfl
    | lastDay ofMonth =>
        rw [ofWeek] at ofMonth
        cases ofMonth
    | value least greatest => exact Or.inr ⟨_, rfl, least, greatest⟩

/-- With the range over the whole week among its items, a field of weekdays keeps a timetable from
being made exactly if it mixes turns already. -/
theorem ReadAround.mixesTurns_iff (around : template.ReadAround front back)
    (ofWeek : template.field = .dayOfWeek) :
    Timetable.mixesTurns (.joined (front ++ template.field.wholeSpread :: back)) = true ↔
      template.MixesTurns := by
  generalize joined : Spread.joined (front ++ template.field.wholeSpread :: back) = spread
  have turns : spread.turns = (front ++ back).flatMap (·.turns) := by
    rw [← joined, turns_joined rfl]
  have isOf : ∀ entry ∈ spread.entries, _ := fun entry member =>
    around.every_or_value ofWeek (joined ▸ member)
  have all (n : Nat) (least : template.field.least ≤ n) (greatest : n ≤ template.field.greatest) :
      .value n ∈ spread.entries :=
    joined ▸ mem_entries_joined_whole.mpr (Or.inl ⟨n, rfl, least, greatest⟩)
  have distinct : spread.entries.Nodup := joined ▸ nodup_eraseDups _
  have star : .every ∈ spread.entries ↔ ['*'] ∈ template.others := by
    rw [← joined, mem_entries_joined_whole, ← around.star_iff]
    simp
  have size : Field.dayOfWeek.size = template.field.size := by rw [ofWeek]
  have unturned (day : Nat) :
      (∀ turn ∈ spread.turns, turn.1 ≠ day) ↔ ¬ IsInTurn template.others day := by
    rw [← around.turns_iff ofWeek, ← turns]
    simp only [not_exists, not_and, ne_eq]
  rw [Crontab.mixesTurns_iff, size, length_ne_size_iff distinct isOf all, star]
  simp only [unturned]
  constructor
  · rintro ⟨turned, stars, day, named, alone⟩
    obtain ⟨turn, listed⟩ := List.exists_mem_of_ne_nil _ turned
    refine ⟨ofWeek, stars, ⟨turn.1, ?_⟩, day, ?_, alone⟩
    · exact (around.turns_iff ofWeek).mp ⟨turn, turns ▸ listed, rfl⟩
    · rcases isOf _ named with same | ⟨n, same, _, greatest⟩
      · cases same
      · cases same
        rwa [ofWeek] at greatest
  · rintro ⟨_, stars, ⟨turned, inTurn⟩, day, bound, alone⟩
    obtain ⟨turn, listed, _⟩ := (around.turns_iff ofWeek).mpr inTurn
    refine ⟨turns ▸ List.ne_nil_of_mem listed, stars, day, all day ?_ ?_, alone⟩
    · rw [ofWeek]
      exact Nat.zero_le day
    · rwa [ofWeek]

end Template

/-! Expressions -/

/-- The items of a field name all its values. -/
def Field.NamesAll (field : Field) (text : List Char) : Prop :=
  ∃ spread, field.spread (Text.lower text) = .ok spread ∧
    ∀ n, field.least ≤ n → n ≤ field.greatest → n ∈ field.values spread.entries

variable {expression ranged whole : List Char} {format : Option Format}

theorem validate_of_isValid (five : (Text.words expression).length = 5)
    (valid : IsValid expression format) :
    validate expression format = .ok ⟨none, some .five⟩ := by
  cases checked : validate expression format with
  | error tooLong => simp [IsValid, checked, Except.map] at valid
  | ok verdict =>
      have detected : detectFormat expression = some .five := detectFormat_of_count five
      have layout := (format_of_validate checked).trans detected
      have noDefect := Option.isNone_iff_eq_none.mp ((isValid_of_validate checked).mp valid)
      obtain ⟨defect, found⟩ := verdict
      cases layout
      cases noDefect
      rfl

theorem isValid_iff_validate_eq (five : (Text.words expression).length = 5)
    (sameCount : (Text.words ranged).length = 5) (valid : IsValid expression format) :
    validate ranged format = validate expression format ↔ IsValid ranged format := by
  constructor
  · intro same
    rwa [IsValid, same]
  · intro validRanged
    rw [validate_of_isValid five valid, validate_of_isValid sameCount validRanged]

/-- What a valid template names around a number. -/
theorem Template.Writes.exists_readAround {template : Template}
    (writes : template.Writes number expression) (digits : IsDigits number)
    (valid : IsValid expression format) :
    ∃ front back n, template.ReadAround front back ∧
      template.field.readTerm? number = some n ∧
      (template.field.least ≤ n ∧ n ≤ template.field.greatest) ∧
      template.field.readPart? number = some ⟨[.value n], []⟩ := by
  obtain ⟨spread, read, _⟩ :=
    textsWith_field template number ▸
      writes.exists_table_iff.mp (Crontab.isValid_iff.mp valid).2 template.field
  obtain ⟨front, part, back, around, reads, _⟩ := Template.exists_readAround digits.isNumeric read
  obtain ⟨n, term, bounds, rfl⟩ := readPart?_number digits reads
  exact ⟨front, back, n, around, term, bounds, reads⟩

theorem Template.isValid_whole_iff {template : Template} {front back : List Spread}
    (writes : template.Writes number expression) (writesItem : template.Writes item ranged)
    (digits : IsDigits number) (numeric : IsNumeric item) (valid : IsValid expression format)
    (around : template.ReadAround front back)
    (reads : template.field.readPart? item = some template.field.wholeSpread) :
    IsValid ranged format ↔ ¬ template.MixesTurns := by
  have operators := (writes.isValid_iff writes valid).mp valid |>.1
  have noOperator := noOperator_of_numeric digits.isNumeric numeric operators
  have read := around.spread_eq numeric reads
  rw [writes.isValid_iff writesItem valid, and_iff_right noOperator, Field.Readable, read]
  simp only [Except.ok.injEq, exists_eq_left']
  by_cases ofWeek : template.field = .dayOfWeek
  · rw [← around.mixesTurns_iff ofWeek, Bool.not_eq_true]
    simp [ofWeek]
  · exact iff_of_true (fun same => absurd same ofWeek) fun mixes => ofWeek mixes.ofWeek

/-- Whether there is a timetable does not depend on which of two items that are read as the same
spread fills a template. -/
theorem Template.ReadAround.exists_table_iff {template : Template} {front back : List Spread}
    {part : Spread} (around : template.ReadAround front back) (numeric : IsNumeric item)
    (otherNumeric : IsNumeric other) (reads : template.field.readPart? item = some part)
    (readsOther : template.field.readPart? other = some part)
    (made : ∀ field : Field, field.Readable (template.textsWith number field))
    (writesItem : template.Writes item ranged) (writesOther : template.Writes other whole) :
    (∃ table, Timetable.ofText? (splitSeconds ranged).2 = some (.ok table)) ↔
      ∃ table, Timetable.ofText? (splitSeconds whole).2 = some (.ok table) := by
  rw [writesItem.exists_table_iff, writesOther.exists_table_iff,
    Template.forall_textsWith_iff Field.Readable made,
    Template.forall_textsWith_iff Field.Readable made, Field.Readable, Field.Readable,
    around.spread_eq numeric reads, around.spread_eq otherNumeric readsOther]

/-- In any item of a valid expression, the range from a number to itself is the number for the field
grammar, and for the timetable it is the range over the whole field. The expression stays valid
unless its weekdays mix turns with a star. A valid one keeps its runs exactly if the whole range
names the same moments, as where the field names all its values anyway. -/
theorem validate_pointRange (five : (Text.words expression).length = 5)
    (valid : IsValid expression format) :
    (∀ field item, HasItem expression field item →
      ∃ template : Template, template.field = field ∧ template.Writes item expression) ∧
    ∀ (template : Template) number ranged whole, IsDigits number →
      template.Writes number expression → template.Writes (pointRange number) ranged →
      template.Writes template.field.wholeRange whole →
      (∀ n : Nat, plainNumber? number = some n → template.field.bounds.min ≤ n →
        n ≤ template.field.bounds.max →
        expandField template.field.bounds number = .ok [(n : Int)] ∧
          expandField template.field.bounds (pointRange number) = .ok [(n : Int)]) ∧
      (∀ values, expandField template.field.bounds (template.fieldText (pointRange number)) =
          .ok values ↔
        expandField template.field.bounds (template.fieldText number) = .ok values) ∧
      (validate ranged format = validate expression format ↔ ¬ template.MixesTurns) ∧
      (∀ count layout start,
        nextRuns ranged count layout start = nextRuns whole count layout start) ∧
      (validate ranged format = validate expression format →
        ((∀ count layout start,
            nextRuns ranged count layout start = nextRuns expression count layout start) ↔
          RunTogether whole expression) ∧
        (template.field.NamesAll (template.fieldText number) → RunTogether whole expression)) := by
  refine ⟨fun field item hasItem => hasItem.exists_template five,
    fun template number ranged whole digits writes writesRange writesWhole => ?_⟩
  obtain ⟨front, back, n, around, term, bounds, reads⟩ := writes.exists_readAround digits valid
  have point := digits.isNumeric
  have range := digits.isNumeric_pointRange
  have wide := template.field.isNumeric_wholeRange
  have readsRange := readPart?_pointRange digits term bounds.2
  have validRange :=
    Template.isValid_whole_iff writes writesRange digits range valid around readsRange
  have sameVerdict : validate ranged format = validate expression format ↔ IsValid ranged format :=
    isValid_iff_validate_eq five writesRange.five valid
  have readable := around.exists_table_iff range wide readsRange readPart?_wholeRange
    (writes.exists_table_iff.mp (isValid_iff.mp valid).2) writesRange writesWhole
  have rangesAlike := around.readAlike range wide readsRange readPart?_wholeRange (.refl _ _)
  have sameRuns := rangesAlike.nextRuns_eq writesRange writesWhole readable
  refine ⟨fun n => expandField_pointRange, fun values => ?_, sameVerdict.trans validRange,
    sameRuns, fun same => ?_⟩
  · exact Template.expandField_congr range.noComma point.noComma
      (fun values => expandPart_pointRange_iff digits) range.trim point.trim
  · obtain ⟨table, read⟩ := (isValid_iff.mp valid).2
    obtain ⟨rangedTable, readRange⟩ := (isValid_iff.mp (sameVerdict.mp same)).2
    obtain ⟨wholeTable, readWhole⟩ := readable.mp ⟨rangedTable, readRange⟩
    have together := nextRuns_eq_iff writesWhole.five five readWhole read
    simp only [sameRuns]
    refine ⟨together, fun namesAll => together.mp fun count layout start => ?_⟩
    obtain ⟨spread, readField, all⟩ := namesAll
    rw [around.spread_eq point reads] at readField
    cases readField
    have alike :=
      around.readAlike point wide reads readPart?_wholeRange (alike_of_names_all bounds all)
    refine (alike.nextRuns_eq writes writesWhole ?_ count layout start).symm
    exact iff_of_true ⟨table, read⟩ ⟨wholeTable, readWhole⟩

/-- The hours `0-12,13-23` with each other hour as an item, or as the range from it to itself. -/
theorem validate_pointRange_hours :
    IsValid "0 0-12,13-23,9 * * *".toList none ∧
      validate "0 0-12,13-23,9-9 * * *".toList none =
        validate "0 0-12,13-23,9 * * *".toList none ∧
      ∀ count layout start,
        nextRuns "0 0-12,13-23,9-9 * * *".toList count layout start =
          nextRuns "0 0-12,13-23,9 * * *".toList count layout start := by
  have valid : IsValid "0 0-12,13-23,9 * * *".toList none := by decide +kernel
  let template : Template :=
    ⟨Function.update (fun _ => "*".toList) .minute "0".toList, .hour,
      ["0-12".toList, "13-23".toList], [], by decide⟩
  have digits : IsDigits "9".toList :=
    ⟨List.cons_ne_nil _ _, List.forall_mem_singleton.mpr (by decide)⟩
  have writes : template.Writes "9".toList "0 0-12,13-23,9 * * *".toList := by
    decide +kernel
  have writesRange : template.Writes (pointRange "9".toList) "0 0-12,13-23,9-9 * * *".toList := by
    decide +kernel
  have writesWhole : template.Writes Field.hour.wholeRange "0 0-12,13-23,0-23 * * *".toList := by
    decide +kernel
  have same := (validate_pointRange (by decide) valid).2 template _ _ _ digits
    writes writesRange writesWhole
  have notMixed : ¬ template.MixesTurns := by
    intro mixes
    cases mixes.ofWeek
  have sameVerdict := same.2.2.1.mpr notMixed
  let hours : List Entry := (List.range 24).map .value
  have read : Field.hour.spread (Text.lower (template.fieldText "9".toList)) = .ok ⟨hours, []⟩ := by
    rfl
  have all : ∀ hour < 24, hour ∈ Field.hour.values hours := by decide +kernel
  have namesAll : template.field.NamesAll (template.fieldText "9".toList) :=
    ⟨_, read, fun hour _ bound => all hour (Nat.lt_succ_of_le bound)⟩
  obtain ⟨sameRuns, together⟩ := same.2.2.2.2 sameVerdict
  exact ⟨valid, sameVerdict, sameRuns.mpr (together namesAll)⟩

/-- Elsewhere the runs change: at five past midnight, and at every minute of the first hour. And a
list with a star and an overlooked turn is refused. -/
theorem nextRuns_pointRange_differs :
    IsValid "5 0 * * *".toList none ∧
      expandField Field.minute.bounds "5-5".toList = .ok [5] ∧
      validate "5-5 0 * * *".toList none = validate "5 0 * * *".toList none ∧
      nextRuns "5 0 * * *".toList 2 .five
          ((Moment.ofIso? "2026-10-19T10:30:00".toList).get (by decide)) =
        [(Moment.ofIso? "2026-10-20T00:05:00".toList).get (by decide),
          (Moment.ofIso? "2026-10-21T00:05:00".toList).get (by decide)] ∧
      nextRuns "5-5 0 * * *".toList 2 .five
          ((Moment.ofIso? "2026-10-19T10:30:00".toList).get (by decide)) =
        [(Moment.ofIso? "2026-10-20T00:00:00".toList).get (by decide),
          (Moment.ofIso? "2026-10-20T00:01:00".toList).get (by decide)] ∧
      IsValid "0 0 * * *,fri#2,5".toList none ∧ ¬ IsValid "0 0 * * *,fri#2,5-5".toList none := by
  decide +kernel

end Recurrence.Crontab
