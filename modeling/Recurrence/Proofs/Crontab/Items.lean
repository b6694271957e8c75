import Recurrence.Proofs.Crontab.Spread

namespace Recurrence.Crontab

/-! The grammar of timetables as a set of written forms. `Field.Reads` says which texts an item
without a turn may be written as, and `IsTurn` which ones name weekdays in one turn; what is read
of a field has these forms. -/

variable {field : Field} {item text : List Char}

/-! Terms -/

def Field.words : Field → List String
  | .month => monthWords
  | .dayOfWeek => weekdayWords
  | _ => []

/-- The characters that items of a field are written with. -/
def Field.isItemChar (field : Field) (c : Char) : Bool :=
  isPartChar c || field.words.any (·.toList.contains c)

theorem Field.exists_word_of_ofWord? {n : Nat} (named : field.ofWord? text = some n) :
    ∃ word ∈ field.words, word.toList = text := by
  have listed {words : List String} {place : Nat}
      (found : words.findIdx? (·.toList == text) = some place) :
      ∃ word ∈ words, word.toList = text := by
    obtain ⟨bound, same, _⟩ := List.findIdx?_eq_some_iff_getElem.mp found
    exact ⟨_, List.getElem_mem bound, beq_iff_eq.mp same⟩
  cases field with
  | month =>
      obtain ⟨place, found, _⟩ := Option.map_eq_some_iff.mp named
      exact listed found
  | dayOfWeek => exact listed named
  | _ => cases named

theorem Field.readTerm?_cases {n : Nat} (reads : field.readTerm? text = some n) :
    (∃ number, plainNumber? text = some number ∧
        n = if field = .dayOfWeek ∧ number = 7 then 0 else number) ∨
      ∃ word ∈ field.words, word.toList = text := by
  unfold readTerm? at reads
  cases numbered : plainNumber? text with
  | some number =>
      simp only [numbered, Option.some.injEq] at reads
      exact Or.inl ⟨number, rfl, reads.symm⟩
  | none =>
      simp only [numbered] at reads
      exact Or.inr (exists_word_of_ofWord? reads)

theorem Field.isPlainDigit_of_mem_word {word : String} (listed : word ∈ field.words) :
    ∀ c ∈ word.toList, Text.isPlainDigit c = false := by
  have noDigits : field.words.all (fun word => word.toList.all (!Text.isPlainDigit ·)) = true := by
    cases field <;> decide
  simpa using List.all_eq_true.mp noDigits word listed

theorem isPartChar_of_isPlainDigit {c : Char} (digit : Text.isPlainDigit c = true) :
    isPartChar c = true := by
  simp [isPartChar, digit]

theorem Field.isItemChar_of_plainNumber? {n : Nat} (reads : plainNumber? text = some n) :
    ∀ c ∈ text, field.isItemChar c = true := by
  intro c member
  rw [isItemChar, isPartChar_of_isPlainDigit ((plainNumber?_digits reads).2 c member), Bool.true_or]

theorem Field.isItemChar_of_readTerm? {n : Nat} (reads : field.readTerm? text = some n) :
    ∀ c ∈ text, field.isItemChar c = true := by
  rcases readTerm?_cases reads with ⟨number, numbered, _⟩ | ⟨word, listed, rfl⟩
  · exact isItemChar_of_plainNumber? numbered
  · intro c member
    rw [isItemChar, Bool.or_eq_true, List.any_eq_true]
    exact Or.inr ⟨word, listed, List.contains_iff_mem.mpr member⟩

/-! Items without a turn -/

inductive Field.Reads (field : Field) : List Char → Prop
  | star : Reads field ['*']
  | lastDay (ofMonth : field = .dayOfMonth) : Reads field ['l']
  | value {text : List Char} {n : Nat} (reads : field.readTerm? text = some n)
      (least : field.least ≤ n) (greatest : n ≤ field.greatest) : Reads field text
  | range {firstText lastText : List Char} {first last : Nat}
      (readsFirst : field.readTerm? firstText = some first)
      (readsLast : field.readTerm? lastText = some last)
      (ranged : (field.range? first last 1).isSome) : Reads field (firstText ++ '-' :: lastText)
  | starStep {stepText : List Char} {step : Nat} (readsStep : plainNumber? stepText = some step)
      (ranged : (field.range? field.least field.greatest step).isSome) :
      Reads field ('*' :: '/' :: stepText)
  | valueStep {firstText stepText : List Char} {first step : Nat}
      (readsFirst : field.readTerm? firstText = some first)
      (readsStep : plainNumber? stepText = some step)
      (ranged : (field.range? first field.greatest step).isSome) :
      Reads field (firstText ++ '/' :: stepText)
  | rangeStep {firstText lastText stepText : List Char} {first last step : Nat}
      (readsFirst : field.readTerm? firstText = some first)
      (readsLast : field.readTerm? lastText = some last)
      (readsStep : plainNumber? stepText = some step)
      (ranged : (field.range? first last step).isSome) :
      Reads field ((firstText ++ '-' :: lastText) ++ '/' :: stepText)

theorem Field.readRange?_cases {base : List Char} {step : Nat} {values : List Nat}
    (read : field.readRange? base step = some values) :
    ∃ firstText lastText first last, base = firstText ++ '-' :: lastText ∧
      field.readTerm? firstText = some first ∧ field.readTerm? lastText = some last ∧
      (field.range? first last step).isSome := by
  unfold readRange? at read
  split at read
  · rename_i firstText lastText cut
    obtain ⟨first, readsFirst, read⟩ := Option.bind_eq_some_iff.mp read
    obtain ⟨last, readsLast, ranged⟩ := Option.bind_eq_some_iff.mp read
    exact ⟨firstText, lastText, first, last, Text.eq_append_of_splitAt cut, readsFirst, readsLast,
      ranged ▸ rfl⟩
  · cases read

theorem Field.reads_of_readItem? {entries : List Entry}
    (read : field.readItem? item = some entries) : field.Reads item := by
  unfold readItem? at read
  split at read
  · rename_i star
    exact star ▸ .star
  · split at read
    · rename_i last
      exact last.1 ▸ .lastDay last.2
    · cases cut : Text.splitFirst? '/' item with
      | some pieces =>
          obtain ⟨base, stepText⟩ := pieces
          obtain ⟨rfl, _⟩ := Text.eq_append_of_splitFirst? cut
          simp only [cut] at read
          obtain ⟨step, readsStep, behind⟩ := Option.bind_eq_some_iff.mp read
          split at behind
          · rename_i star
            subst star
            obtain ⟨values, ranged, _⟩ := Option.bind_eq_some_iff.mp behind
            exact .starStep readsStep (ranged ▸ rfl)
          · split at behind
            · obtain ⟨values, ranged, _⟩ := Option.bind_eq_some_iff.mp behind
              obtain ⟨_, _, _, _, rfl, readsFirst, readsLast, spanned⟩ := readRange?_cases ranged
              exact .rangeStep readsFirst readsLast readsStep spanned
            · obtain ⟨first, readsFirst, behind⟩ := Option.bind_eq_some_iff.mp behind
              obtain ⟨values, ranged, _⟩ := Option.bind_eq_some_iff.mp behind
              exact .valueStep readsFirst readsStep (ranged ▸ rfl)
      | none =>
          simp only [cut] at read
          split at read
          · obtain ⟨values, ranged, _⟩ := Option.map_eq_some_iff.mp read
            obtain ⟨_, _, _, _, rfl, readsFirst, readsLast, spanned⟩ := readRange?_cases ranged
            exact .range readsFirst readsLast spanned
          · obtain ⟨value, reads, read⟩ := Option.bind_eq_some_iff.mp read
            split at read
            · rename_i bounds
              exact .value reads bounds.1 bounds.2
            · cases read

/-- Neither numbers nor names are written with the marks of the grammar. -/
theorem Field.not_mem_of_readTerm? {n : Nat} (reads : field.readTerm? text = some n) {c : Char}
    (mark : c ∈ ['*', '-', '/']) : c ∉ text := by
  have noDigit : ['*', '-', '/'].all (!Text.isPlainDigit ·) = true := by decide
  have noLetter : ∀ word ∈ field.words, ['*', '-', '/'].all (!word.toList.contains ·) = true := by
    cases field <;> decide
  rcases readTerm?_cases reads with ⟨number, numbered, _⟩ | ⟨word, listed, rfl⟩
  · refine not_mem_of_plainNumber? numbered ?_
    simpa using List.all_eq_true.mp noDigit c mark
  · simpa using List.all_eq_true.mp (noLetter word listed) c mark

theorem Field.readRange?_of_readTerm? {firstText lastText : List Char} {first last step : Nat}
    (readsFirst : field.readTerm? firstText = some first)
    (readsLast : field.readTerm? lastText = some last) :
    field.readRange? (firstText ++ '-' :: lastText) step = field.range? first last step := by
  have cut : Text.splitAt '-' (firstText ++ '-' :: lastText) = [firstText, lastText] := by
    rw [Text.splitAt_append (not_mem_of_readTerm? readsFirst (by decide)),
      Text.splitAt_of_not_mem (not_mem_of_readTerm? readsLast (by decide))]
  simp [readRange?, cut, readsFirst, readsLast]

theorem Field.not_mem_range {firstText lastText : List Char} {first last : Nat}
    (readsFirst : field.readTerm? firstText = some first)
    (readsLast : field.readTerm? lastText = some last) {c : Char} (mark : c ∈ ['*', '-', '/'])
    (other : c ≠ '-') : c ∉ firstText ++ '-' :: lastText := by
  simp [not_mem_of_readTerm? readsFirst mark, not_mem_of_readTerm? readsLast mark, other]

theorem range_ne_singleton (firstText lastText : List Char) {c : Char} (other : c ≠ '-') :
    firstText ++ '-' :: lastText ≠ [c] := by
  intro single
  have member : '-' ∈ [c] := single ▸ by simp
  exact other (List.mem_singleton.mp member).symm

/-- The readings of an item, by what stands in front of its first slash. -/
theorem Field.readItem?_append {base stepText : List Char} {step : Nat} (noSlash : '/' ∉ base)
    (readsStep : plainNumber? stepText = some step) :
    field.readItem? (base ++ '/' :: stepText) = ((
      if base = ['*'] then field.range? field.least field.greatest step
      else if base.contains '-' then field.readRange? base step
      else (field.readTerm? base).bind (field.range? · field.greatest step)).map
        (·.map Entry.value)) := by
  have notSingle (c : Char) (other : c ≠ '/') : base ++ '/' :: stepText ≠ [c] := by
    intro single
    have member : '/' ∈ [c] := single ▸ by simp
    exact other (List.mem_singleton.mp member).symm
  unfold readItem?
  rw [if_neg (notSingle '*' (by decide)), if_neg (fun both => notSingle 'l' (by decide) both.1),
    Text.splitFirst?_append '/' noSlash]
  simp only [Option.bind_eq_bind, readsStep, Option.bind_some]
  repeat' split
  · exact Option.map_eq_bind.symm
  · exact Option.map_eq_bind.symm
  · rw [Option.map_bind]
    exact congrArg _ (funext fun first => Option.map_eq_bind.symm)

theorem Field.readItem?_of_not_mem (noSlash : '/' ∉ item) (notStar : item ≠ ['*'])
    (notLast : ¬ (item = ['l'] ∧ field = .dayOfMonth)) :
    field.readItem? item =
      if item.contains '-' then (field.readRange? item 1).map (·.map Entry.value)
      else (field.readTerm? item).bind fun value =>
        if field.least ≤ value ∧ value ≤ field.greatest then some [.value value] else none := by
  unfold readItem?
  rw [if_neg notStar, if_neg notLast, Text.splitFirst?_eq_none_iff.mpr noSlash]
  rfl

theorem Field.Reads.isSome_readItem? (reads : field.Reads item) : (field.readItem? item).isSome := by
  cases reads with
  | star => rfl
  | lastDay ofMonth =>
      subst ofMonth
      rfl
  | value reads least greatest =>
      by_cases last : item = ['l'] ∧ field = .dayOfMonth
      · rw [readItem?, if_neg (by simp [last.1]), if_pos last]
        rfl
      · have noHyphen := not_mem_of_readTerm? reads (c := '-') (by decide)
        rw [readItem?_of_not_mem (not_mem_of_readTerm? reads (by decide)) ?_ last,
          if_neg (by simpa using noHyphen), reads, Option.bind_some, if_pos ⟨least, greatest⟩]
        · rfl
        · rintro rfl
          exact not_mem_of_readTerm? reads (c := '*') (by decide) List.mem_cons_self
  | range readsFirst readsLast ranged =>
      have noSlash := not_mem_range readsFirst readsLast (c := '/') (by decide) (by decide)
      rw [readItem?_of_not_mem noSlash (range_ne_singleton _ _ (by decide))
        (fun last => range_ne_singleton _ _ (by decide) last.1), if_pos (by simp),
        readRange?_of_readTerm? readsFirst readsLast, Option.isSome_map]
      exact ranged
  | @starStep stepText step readsStep ranged =>
      have absent : '/' ∉ ['*'] := by decide
      have read : field.readItem? (['*'] ++ '/' :: stepText) = _ :=
        readItem?_append absent readsStep
      rw [List.singleton_append, if_pos rfl] at read
      rw [read, Option.isSome_map]
      exact ranged
  | valueStep readsFirst readsStep ranged =>
      have noHyphen := not_mem_of_readTerm? readsFirst (c := '-') (by decide)
      rw [readItem?_append (not_mem_of_readTerm? readsFirst (by decide)) readsStep, if_neg ?_,
        if_neg (by simpa using noHyphen), readsFirst, Option.bind_some, Option.isSome_map]
      · exact ranged
      · rintro rfl
        exact not_mem_of_readTerm? readsFirst (c := '*') (by decide) List.mem_cons_self
  | rangeStep readsFirst readsLast readsStep ranged =>
      have noSlash := not_mem_range readsFirst readsLast (c := '/') (by decide) (by decide)
      rw [readItem?_append noSlash readsStep, if_neg (range_ne_singleton _ _ (by decide)),
        if_pos (by simp), readRange?_of_readTerm? readsFirst readsLast, Option.isSome_map]
      exact ranged

/-- The last day of the month is the only item that is not written with its field's characters. -/
theorem Field.Reads.itemChars (reads : field.Reads item) :
    item = ['l'] ∧ field = .dayOfMonth ∨ ∀ c ∈ item, field.isItemChar c = true := by
  have mark {c : Char} (isPart : isPartChar c = true) : field.isItemChar c = true := by
    rw [isItemChar, isPart, Bool.true_or]
  have star : field.isItemChar '*' = true := mark (by decide)
  have slash : field.isItemChar '/' = true := mark (by decide)
  have hyphen : field.isItemChar '-' = true := mark (by decide)
  cases reads with
  | lastDay ofMonth => exact Or.inl ⟨rfl, ofMonth⟩
  | star => exact Or.inr (List.forall_mem_singleton.mpr star)
  | value reads => exact Or.inr (isItemChar_of_readTerm? reads)
  | range readsFirst readsLast =>
      simp only [List.forall_mem_append, List.forall_mem_cons]
      exact Or.inr ⟨isItemChar_of_readTerm? readsFirst, hyphen, isItemChar_of_readTerm? readsLast⟩
  | starStep readsStep =>
      simp only [List.forall_mem_cons]
      exact Or.inr ⟨star, slash, isItemChar_of_plainNumber? readsStep⟩
  | valueStep readsFirst readsStep =>
      simp only [List.forall_mem_append, List.forall_mem_cons]
      exact Or.inr ⟨isItemChar_of_readTerm? readsFirst, slash, isItemChar_of_plainNumber? readsStep⟩
  | rangeStep readsFirst readsLast readsStep =>
      simp only [List.forall_mem_append, List.forall_mem_cons]
      exact Or.inr ⟨⟨isItemChar_of_readTerm? readsFirst, hyphen, isItemChar_of_readTerm? readsLast⟩,
        slash, isItemChar_of_plainNumber? readsStep⟩

theorem Field.Reads.exists_readTerm? (reads : field.Reads item) (noStar : '*' ∉ item)
    (noHyphen : '-' ∉ item) (noSlash : '/' ∉ item) :
    item = ['l'] ∨ ∃ n, field.readTerm? item = some n := by
  cases reads with
  | star => exact absurd List.mem_cons_self noStar
  | lastDay => exact Or.inl rfl
  | value reads => exact Or.inr ⟨_, reads⟩
  | range => exact absurd (by simp) noHyphen
  | starStep => exact absurd List.mem_cons_self noStar
  | valueStep => exact absurd (by simp) noSlash
  | rangeStep => exact absurd (by simp) noSlash

theorem Field.head?_ne_of_readTerm? {n : Nat} (reads : field.readTerm? text = some n)
    (behind : List Char) : (text ++ behind).head? ≠ some 'r' := by
  have letters : ∀ word ∈ field.words, word.toList.head?.any (· != 'r') = true := by
    cases field <;> decide
  rcases readTerm?_cases reads with ⟨number, numbered, _⟩ | ⟨word, listed, rfl⟩
  · obtain ⟨nonempty, digits⟩ := plainNumber?_digits numbered
    obtain ⟨c, rest, rfl⟩ := List.exists_cons_of_ne_nil nonempty
    intro chance
    cases chance
    exact absurd (digits 'r' List.mem_cons_self) (by decide)
  · have first := letters word listed
    cases written : word.toList with
    | nil => simp [written] at first
    | cons c rest => simpa [written] using first

theorem Field.Reads.head?_ne (reads : field.Reads item) : item.head? ≠ some 'r' := by
  cases reads with
  | star | lastDay | starStep => simp
  | value reads => simpa using head?_ne_of_readTerm? reads []
  | range readsFirst => exact head?_ne_of_readTerm? readsFirst _
  | valueStep readsFirst => exact head?_ne_of_readTerm? readsFirst _
  | rangeStep readsFirst =>
      rw [List.append_assoc]
      exact head?_ne_of_readTerm? readsFirst _

/-! Turns -/

def IsDayName (text : List Char) : Prop :=
  ∃ word ∈ weekdayWords, word.toList = text

theorem IsDayName.letters (named : IsDayName text) :
    ∃ c d e, text = [c, d, e] ∧ Text.isPlainDigit c = false ∧ c ≠ 'r' := by
  have threes : ∀ word ∈ weekdayWords, word.toList.length = 3 ∧
      word.toList.head?.all (fun c => !Text.isPlainDigit c && c != 'r') = true := by
    decide
  obtain ⟨word, listed, rfl⟩ := named
  match letters : word.toList, threes word listed with
  | [c, d, e], three => exact ⟨c, d, e, rfl, by simpa using three.2⟩

theorem IsDayName.noHyphen (named : IsDayName text) : '-' ∉ text := by
  obtain ⟨word, listed, rfl⟩ := named
  revert word
  decide

/-- Weekdays in one turn: the last one of the month, or the n-th one, of which a range may be
given by names only. -/
inductive IsTurn : List Char → Prop
  | last {dayText : List Char} {n : Nat} (reads : plainNumber? dayText = some n) (bound : n ≤ 7) :
      IsTurn ('l' :: dayText)
  | nth {dayText turnText : List Char} {n turn : Nat}
      (readsDay : Field.dayOfWeek.readTerm? dayText = some n)
      (readsTurn : plainNumber? turnText = some turn) (least : 1 ≤ turn) (greatest : turn ≤ 5) :
      IsTurn (dayText ++ '#' :: turnText)
  | nthOfRange {firstText lastText turnText : List Char} {turn : Nat}
      (namesFirst : IsDayName firstText) (namesLast : IsDayName lastText)
      (readsTurn : plainNumber? turnText = some turn) (least : 1 ≤ turn) (greatest : turn ≤ 5) :
      IsTurn ((firstText ++ '-' :: lastText) ++ '#' :: turnText)

theorem isDayName_of_readTerm? {n : Nat} (reads : Field.dayOfWeek.readTerm? text = some n)
    (noDigit : ∀ c ∈ text, Text.isPlainDigit c = false) : IsDayName text := by
  rcases Field.readTerm?_cases reads with ⟨number, numbered, _⟩ | named
  · obtain ⟨nonempty, digits⟩ := plainNumber?_digits numbered
    obtain ⟨c, member⟩ := List.exists_mem_of_ne_nil _ nonempty
    exact absurd (digits c member) (by simp [noDigit c member])
  · exact named

theorem isTurn_of_readTurn? {found : List Nat × Turn} (read : Field.readTurn? item = some found) :
    IsTurn item := by
  unfold Field.readTurn? at read
  split at read
  · rename_i dayText
    obtain ⟨n, numbered, read⟩ := Option.bind_eq_some_iff.mp read
    obtain ⟨day, reads, read⟩ := Option.bind_eq_some_iff.mp read
    split at read
    · rename_i bound
      refine .last numbered ?_
      simp only [Field.readTerm?, numbered, Option.some.injEq] at reads
      change day ≤ 6 at bound
      split at reads <;> omega
    · cases read
  · obtain ⟨⟨dayText, turnText⟩, cut, behind⟩ := Option.bind_eq_some_iff.mp read
    obtain ⟨turn, readsTurn, behind⟩ := Option.bind_eq_some_iff.mp behind
    obtain ⟨rfl, _⟩ := Text.eq_append_of_splitFirst? cut
    clear read
    split at behind
    · rename_i ranged
      obtain ⟨days, spanned, read⟩ := Option.bind_eq_some_iff.mp behind
      dsimp only at read
      obtain ⟨firstText, lastText, first, last, rfl, readsFirst, readsLast, _⟩ :=
        Field.readRange?_cases spanned
      split at read
      · rename_i bounds
        have noDigit := ranged.2
        simp only [Bool.not_eq_true', List.any_eq_false, List.forall_mem_append,
          List.forall_mem_cons, Bool.not_eq_true] at noDigit
        exact .nthOfRange (isDayName_of_readTerm? readsFirst noDigit.1)
          (isDayName_of_readTerm? readsLast noDigit.2.2) readsTurn bounds.1 bounds.2.1
      · cases read
    · obtain ⟨days, single, read⟩ := Option.bind_eq_some_iff.mp behind
      obtain ⟨n, readsDay, _⟩ := Option.map_eq_some_iff.mp single
      dsimp only at read
      split at read
      · rename_i bounds
        exact .nth readsDay readsTurn bounds.1 bounds.2.1
      · cases read

theorem IsTurn.exists_mark (turns : IsTurn item) : 'l' ∈ item ∨ '#' ∈ item := by
  cases turns with
  | last => exact Or.inl List.mem_cons_self
  | nth => exact Or.inr (by simp)
  | nthOfRange => exact Or.inr (by simp)

/-! Values left to chance -/

def isChanceChar (c : Char) : Bool :=
  isPartChar c || c == 'r' || c == '(' || c == ')'

theorem chanceChars_of_plainNumber? {n : Nat} (reads : plainNumber? text = some n) :
    ∀ c ∈ text, isChanceChar c = true := by
  intro c member
  simp [isChanceChar, isPartChar_of_isPlainDigit ((plainNumber?_digits reads).2 c member)]

theorem Field.chanceChars_of_limits {between : List Char} {limits : Nat × Nat}
    (read : (match between with
      | [] => some (field.least, field.greatest)
      | '(' :: inside =>
          match Text.splitFirst? ')' inside with
          | some (limits, []) =>
              match (Text.splitAt '-' limits).map plainNumber? with
              | [some first, some last] => some (first, last)
              | _ => none
          | _ => none
      | _ => none) = some limits) : ∀ c ∈ between, isChanceChar c = true := by
  have opening : isChanceChar '(' = true := by decide
  have closing : isChanceChar ')' = true := by decide
  have hyphen : isChanceChar '-' = true := by decide
  split at read
  · exact fun c member => by cases member
  · split at read
    · rename_i inside cut
      obtain ⟨rfl, _⟩ := Text.eq_append_of_splitFirst? cut
      split at read
      · rename_i pieces
        obtain ⟨firstText, _, cutLimits, readsFirst, others⟩ := List.map_eq_cons_iff.mp pieces
        obtain ⟨lastText, rfl, readsLast⟩ := List.map_eq_singleton_iff.mp others
        rw [Text.eq_append_of_splitAt cutLimits]
        simp only [List.forall_mem_append, List.forall_mem_cons]
        exact ⟨opening, ⟨chanceChars_of_plainNumber? readsFirst, hyphen,
          chanceChars_of_plainNumber? readsLast⟩, closing, fun c member => by cases member⟩
      · cases read
    · cases read
  · cases read

theorem Field.chanceChars_of_chosen? {values : List Nat}
    (chosen : field.chosen? text = some (some values)) :
    text.head? = some 'r' ∧ ∀ c ∈ text, isChanceChar c = true := by
  unfold chosen? at chosen
  split at chosen
  · rename_i rest
    have letter : isChanceChar 'r' = true := by decide
    have slash : isChanceChar '/' = true := by decide
    refine ⟨rfl, List.forall_mem_cons.mpr ⟨letter, ?_⟩⟩
    cases cut : Text.splitFirst? '/' rest with
    | none =>
        simp only [cut] at chosen
        split at chosen
        · cases chosen
        · cases chosen
        · rename_i limits _
          exact chanceChars_of_limits limits
        · rename_i limits _
          exact chanceChars_of_limits limits
    | some pieces =>
        obtain ⟨between, stepText⟩ := pieces
        obtain ⟨rfl, _⟩ := Text.eq_append_of_splitFirst? cut
        simp only [cut] at chosen
        split at chosen
        · cases chosen
        · cases chosen
        · rename_i step
          cases step
        · rename_i limits step
          simp only [List.forall_mem_append, List.forall_mem_cons]
          exact ⟨chanceChars_of_limits limits, slash,
            chanceChars_of_plainNumber? (Option.some.inj step)⟩
  · cases chosen

/-! Fields -/

theorem exists_of_mapM {read : α → Option β} {items : List α} {results : List β}
    (mapped : items.mapM read = some results) {item : α} (member : item ∈ items) :
    ∃ result, read item = some result := by
  induction items generalizing results with
  | nil => cases member
  | cons first others ih =>
      rw [List.mapM_cons] at mapped
      obtain ⟨head, readFirst, mapped⟩ := Option.bind_eq_some_iff.mp mapped
      obtain ⟨tail, readOthers, _⟩ := Option.bind_eq_some_iff.mp mapped
      rcases List.mem_cons.mp member with rfl | further
      · exact ⟨head, readFirst⟩
      · exact ih readOthers further

theorem mem_of_mapM {read : α → Option β} {items : List α} {results : List β}
    (mapped : items.mapM read = some results) {result : β} :
    result ∈ results ↔ ∃ item ∈ items, read item = some result := by
  induction items generalizing results with
  | nil =>
      cases mapped
      simp
  | cons first others ih =>
      rw [List.mapM_cons] at mapped
      obtain ⟨head, readFirst, mapped⟩ := Option.bind_eq_some_iff.mp mapped
      obtain ⟨tail, readOthers, rest⟩ := Option.bind_eq_some_iff.mp mapped
      cases rest
      simp [ih readOthers, readFirst, eq_comm]

theorem Field.forms_of_readPart? {spread : Spread} (read : field.readPart? item = some spread) :
    field.Reads item ∨ field = .dayOfWeek ∧ IsTurn item := by
  unfold readPart? at read
  split at read
  · rename_i turn
    split at turn
    · rename_i ofWeek
      exact Or.inr ⟨ofWeek, isTurn_of_readTurn? turn⟩
    · cases turn
  · obtain ⟨entries, readItem, _⟩ := Option.map_eq_some_iff.mp read
    exact Or.inl (reads_of_readItem? readItem)

/-- An item that is read without a turn is never taken for weekdays in one turn. -/
theorem Field.Reads.exists_part_without_turns (reads : field.Reads item) :
    ∃ entries, field.readPart? item = some ⟨entries, []⟩ := by
  obtain ⟨entries, read⟩ := Option.isSome_iff_exists.mp reads.isSome_readItem?
  have noTurn : (if field = .dayOfWeek then Field.readTurn? item else none) = none := by
    split
    · rename_i ofWeek
      subst ofWeek
      refine Option.eq_none_iff_forall_ne_some.mpr fun found turn => ?_
      obtain ⟨_, ofMonth⟩ | chars := reads.itemChars
      · cases ofMonth
      · rcases (isTurn_of_readTurn? turn).exists_mark with mark | mark
        · exact absurd (chars 'l' mark) (by decide)
        · exact absurd (chars '#' mark) (by decide)
    · rfl
  exact ⟨entries, by simp [readPart?, noTurn, read]⟩

theorem Field.exists_parts_of_reads {items : List (List Char)}
    (reads : ∀ item ∈ items, field.Reads item) :
    ∃ parts, items.mapM field.readPart? = some parts ∧ ∀ part ∈ parts, part.turns = [] := by
  induction items with
  | nil => exact ⟨[], rfl, nofun⟩
  | cons item items ih =>
      obtain ⟨readsHere, readsThere⟩ := List.forall_mem_cons.mp reads
      obtain ⟨entries, read⟩ := readsHere.exists_part_without_turns
      obtain ⟨parts, readParts, noTurns⟩ := ih readsThere
      refine ⟨⟨entries, []⟩ :: parts, ?_, List.forall_mem_cons.mpr ⟨rfl, noTurns⟩⟩
      rw [List.mapM_cons, read, readParts]
      rfl

theorem Field.spread_cases {spread : Spread} (read : field.spread text = .ok spread) :
    (text = ['?'] ∧ (field = .dayOfMonth ∨ field = .dayOfWeek)) ∨
      (text.head? = some 'r' ∧ ∀ c ∈ text, isChanceChar c = true) ∨
      ∀ item ∈ Text.splitAt ',' text, field.Reads item ∨ field = .dayOfWeek ∧ IsTurn item := by
  unfold Field.spread at read
  split at read
  · rename_i everything
    exact Or.inl everything
  · split at read
    · rename_i chosen
      exact Or.inr (Or.inl (chanceChars_of_chosen? chosen))
    · cases read
    · split at read
      · rename_i parts readParts
        refine Or.inr (Or.inr fun item member => ?_)
        obtain ⟨part, read⟩ := exists_of_mapM readParts member
        exact forms_of_readPart? read
      · cases read

theorem IsTurn.head?_ne (turns : IsTurn item) : item.head? ≠ some 'r' := by
  have named {text : List Char} (named : IsDayName text) (behind : List Char) :
      (text ++ behind).head? ≠ some 'r' := by
    obtain ⟨c, d, e, rfl, _, other⟩ := named.letters
    simpa using other
  cases turns with
  | last => simp
  | nth readsDay => exact Field.head?_ne_of_readTerm? readsDay _
  | nthOfRange namesFirst =>
      rw [List.append_assoc]
      exact named namesFirst _

theorem Field.chosen?_eq_none
    (heads : ∀ item ∈ Text.splitAt ',' text, item.head? ≠ some 'r') : field.chosen? text = none := by
  unfold chosen?
  split
  · rename_i rest
    cases behind : Text.splitAt ',' rest with
    | nil => exact absurd behind (Text.splitAt_ne_nil ',' rest)
    | cons first others =>
        have cut := Text.splitAt_cons_of_ne (show 'r' ≠ ',' by decide) behind
        exact absurd rfl (heads ('r' :: first) (cut ▸ List.mem_cons_self))
  · rfl

/-- What several items name together. -/
def Spread.joined (parts : List Spread) : Spread :=
  ⟨(parts.flatMap (·.entries)).eraseDups, parts.flatMap (·.turns)⟩

/-- A field whose items are all read names what they name. -/
theorem Field.spread_of_parts {parts : List Spread}
    (read : (Text.splitAt ',' text).mapM field.readPart? = some parts) :
    field.spread text = .ok (.joined parts) := by
  have forms : ∀ item ∈ Text.splitAt ',' text, field.Reads item ∨ field = .dayOfWeek ∧ IsTurn item :=
    fun item member => (exists_of_mapM read member).elim fun _ => forms_of_readPart?
  have notQuestion : text ≠ ['?'] := by
    rintro rfl
    obtain reads | ⟨_, turns⟩ := forms ['?'] (by decide)
    · obtain ⟨last, _⟩ | chars := reads.itemChars
      · cases last
      · have mark := chars '?' List.mem_cons_self
        revert mark
        cases field <;> decide
    · exact absurd turns.exists_mark (by decide)
  have notChosen : field.chosen? text = none := chosen?_eq_none fun item member =>
    (forms item member).elim Reads.head?_ne fun turns => turns.2.head?_ne
  rw [spread, if_neg fun both => notQuestion both.1, notChosen]
  simp only [read]
  rfl

/-- The items of a field are all read if one of them begins with a digit: it is then no lone mark,
and its value is not left to chance. -/
theorem Field.exists_parts_of_spread {spread : Spread} (read : field.spread text = .ok spread)
    (member : item ∈ Text.splitAt ',' text) (digit : item.head?.any Text.isPlainDigit = true) :
    ∃ parts, (Text.splitAt ',' text).mapM field.readPart? = some parts ∧
      spread = .joined parts := by
  have other (alone : Text.splitAt ',' text = [text]) {c : Char} (starts : text.head? = some c)
      (noDigit : Text.isPlainDigit c = false) : False := by
    rw [alone, List.mem_singleton] at member
    rw [member, starts, Option.any_some, noDigit] at digit
    cases digit
  unfold Field.spread at read
  split at read
  · rename_i everything
    obtain ⟨rfl, _⟩ := everything
    exact (other (by decide) rfl (by decide)).elim
  · split at read
    · rename_i chosen
      obtain ⟨starts, chars⟩ := chanceChars_of_chosen? chosen
      have noComma : ',' ∉ text := fun comma => absurd (chars ',' comma) (by decide)
      exact (other (Text.splitAt_of_not_mem noComma) starts (by decide)).elim
    · cases read
    · split at read
      · rename_i parts readParts
        exact ⟨parts, readParts, (Except.ok.inj read).symm⟩
      · cases read

theorem Field.exists_spread_of_reads
    (reads : ∀ item ∈ Text.splitAt ',' text, field.Reads (Text.lower item)) :
    ∃ entries, field.spread (Text.lower text) = .ok ⟨entries, []⟩ := by
  have readsSmall : ∀ item ∈ Text.splitAt ',' (Text.lower text), field.Reads item := by
    rw [Text.splitAt_lower]
    exact List.forall_mem_map.mpr reads
  obtain ⟨parts, readParts, noTurns⟩ := exists_parts_of_reads readsSmall
  have turns : parts.flatMap (·.turns) = [] := List.flatMap_eq_nil_iff.mpr noTurns
  refine ⟨(parts.flatMap (·.entries)).eraseDups, ?_⟩
  rw [spread_of_parts readParts, Spread.joined, turns]

theorem exists_spread_of_ofText? {expression : List Char} {table : Timetable}
    (read : Timetable.ofText? expression = some (.ok table)) :
    ∀ pair ∈ Field.all.zip (Text.words expression),
      ∃ spread, pair.1.spread (Text.lower pair.2) = .ok spread := by
  unfold Timetable.ofText? at read
  split at read
  · rename_i minute hour day month weekday words
    obtain ⟨minutes, hours, days, months, weekdays, minuteRead, hourRead, dayRead, monthRead,
      weekdayRead, _⟩ := Timetable.ofFields_eq_ok_iff.mp (Option.some.inj read)
    simp only [words, Field.all, List.zip_cons_cons, List.zip_nil_left, List.forall_mem_cons]
    exact ⟨⟨_, minuteRead⟩, ⟨_, hourRead⟩, ⟨_, dayRead⟩, ⟨_, monthRead⟩, ⟨_, weekdayRead⟩,
      fun _ member => by cases member⟩
  · cases read

end Recurrence.Crontab
