import Recurrence.Proofs.Crontab.Agreement
import Recurrence.Proofs.Crontab.Items

namespace Recurrence.Crontab

/-! What the items of a field name, one by one and together. A timetable only looks at the values,
at whether the field is open, at the last day and at the turns. -/

variable {field : Field} {item : List Char}

/-! Entries of items -/

theorem bounds_of_range? {first last step n : Nat} {values : List Nat}
    (ranged : field.range? first last step = some values) (member : n ∈ values) :
    field.least ≤ n ∧ n ≤ field.greatest := by
  unfold Field.range? at ranged
  split at ranged
  · cases ranged
  · rename_i within
    simp only [Option.ite_none_right_eq_some, Option.some.injEq] at ranged
    obtain ⟨least, rfl⟩ := ranged
    refine ⟨by simpa using List.all_eq_true.mp least n member, ?_⟩
    split at member
    · exact (Field.mem_climb_bounds member).2.trans (by omega)
    · split at member
      · exact (Field.mem_climb_bounds member).2
      · rcases List.mem_append.mp member with toEnd | fromStart
        · exact (Field.mem_climb_bounds toEnd).2
        · exact (Field.mem_climb_bounds fromStart).2.trans (by omega)

theorem bounds_of_readRange? {base : List Char} {step n : Nat} {values : List Nat}
    (read : field.readRange? base step = some values) (member : n ∈ values) :
    field.least ≤ n ∧ n ≤ field.greatest := by
  unfold Field.readRange? at read
  split at read
  · obtain ⟨first, _, read⟩ := Option.bind_eq_some_iff.mp read
    obtain ⟨last, _, ranged⟩ := Option.bind_eq_some_iff.mp read
    exact bounds_of_range? ranged member
  · cases read

/-- What an item may name: everything, the last day of a month, or a value of its field. -/
inductive Entry.IsOf (field : Field) (item : List Char) : Entry → Prop
  | every (star : item = ['*']) : IsOf field item .every
  | lastDay (ofMonth : field = .dayOfMonth) : IsOf field item .lastDay
  | value {n : Nat} (least : field.least ≤ n) (greatest : n ≤ field.greatest) :
      IsOf field item (.value n)

theorem Entry.isOf_value {values : List Nat} {entry : Entry}
    (bounds : ∀ n ∈ values, field.least ≤ n ∧ n ≤ field.greatest)
    (member : entry ∈ values.map Entry.value) : entry.IsOf field item := by
  obtain ⟨n, listed, rfl⟩ := List.mem_map.mp member
  exact .value (bounds n listed).1 (bounds n listed).2

theorem isOf_of_readItem? {entries : List Entry} {entry : Entry}
    (read : field.readItem? item = some entries) (member : entry ∈ entries) :
    entry.IsOf field item := by
  unfold Field.readItem? at read
  split at read
  · rename_i star
    cases read
    rw [List.mem_singleton.mp member]
    exact .every star
  · split at read
    · rename_i last
      cases read
      rw [List.mem_singleton.mp member]
      exact .lastDay last.2
    · split at read
      · obtain ⟨step, _, read⟩ := Option.bind_eq_some_iff.mp read
        split at read
        · obtain ⟨values, ranged, rest⟩ := Option.bind_eq_some_iff.mp read
          cases rest
          exact Entry.isOf_value (fun n => bounds_of_range? ranged) member
        · split at read
          · obtain ⟨values, ranged, rest⟩ := Option.bind_eq_some_iff.mp read
            cases rest
            exact Entry.isOf_value (fun n => bounds_of_readRange? ranged) member
          · obtain ⟨first, _, read⟩ := Option.bind_eq_some_iff.mp read
            obtain ⟨values, ranged, rest⟩ := Option.bind_eq_some_iff.mp read
            cases rest
            exact Entry.isOf_value (fun n => bounds_of_range? ranged) member
      · split at read
        · obtain ⟨values, spanned, rfl⟩ := Option.map_eq_some_iff.mp read
          exact Entry.isOf_value (fun n => bounds_of_readRange? spanned) member
        · obtain ⟨n, _, read⟩ := Option.bind_eq_some_iff.mp read
          split at read
          · rename_i bounds
            cases read
            rw [List.mem_singleton.mp member]
            exact .value bounds.1 bounds.2
          · cases read

theorem days_le_of_readTurn? {days : List Nat} {turn : Turn}
    (read : Field.readTurn? item = some (days, turn)) :
    ∀ day ∈ days, day ≤ Field.dayOfWeek.greatest := by
  unfold Field.readTurn? at read
  split at read
  · obtain ⟨_, _, read⟩ := Option.bind_eq_some_iff.mp read
    obtain ⟨day, _, read⟩ := Option.bind_eq_some_iff.mp read
    split at read
    · rename_i bound
      cases read
      exact List.forall_mem_singleton.mpr bound
    · cases read
  · obtain ⟨pieces, _, read⟩ := Option.bind_eq_some_iff.mp read
    obtain ⟨n, _, read⟩ := Option.bind_eq_some_iff.mp read
    -- The days are those of a range of names, or one day; both are held against the same bound.
    split at read
    all_goals
      obtain ⟨found, _, read⟩ := Option.bind_eq_some_iff.mp read
      dsimp only at read
      split at read
      · rename_i bounds
        cases read
        simpa using bounds.2.2
      · cases read

theorem isOf_of_readPart? {part : Spread} {entry : Entry}
    (read : field.readPart? item = some part) (member : entry ∈ part.entries) :
    entry.IsOf field item := by
  unfold Field.readPart? at read
  split at read
  · rename_i turned
    split at turned
    · rename_i ofWeek
      subst ofWeek
      cases read
      exact Entry.isOf_value
        (fun n listed => ⟨Nat.zero_le n, days_le_of_readTurn? turned n listed⟩) member
    · cases turned
  · obtain ⟨entries, readItem, rfl⟩ := Option.map_eq_some_iff.mp read
    exact isOf_of_readItem? readItem member

/-- Spreads that a timetable cannot tell apart. -/
structure Spread.Alike (field : Field) (one other : Spread) : Prop where
  values : field.values one.entries = field.values other.entries
  isOpen : ∀ otherText,
    Timetable.isOpen field one otherText = Timetable.isOpen field other otherText
  lastDay : one.entries.contains .lastDay = other.entries.contains .lastDay
  turns : one.turns = other.turns

theorem Spread.Alike.refl (field : Field) (spread : Spread) : Alike field spread spread :=
  ⟨rfl, fun _ => rfl, rfl, rfl⟩

/-- All values of a field, as the entries of a range over them. -/
def Field.wholeSpread (field : Field) : Spread :=
  ⟨(Field.climb field.least field.greatest 1).map .value, []⟩

/-! What items name together -/

section Joined

variable {front back : List Spread} {part : Spread} {entry : Entry}

theorem mem_entries_joined : entry ∈ (Spread.joined (front ++ part :: back)).entries ↔
    entry ∈ part.entries ∨ ∃ other ∈ front ++ back, entry ∈ other.entries := by
  rw [Spread.joined, List.mem_eraseDups, List.mem_flatMap]
  simp only [List.mem_append, List.mem_cons]
  constructor
  · intro named
    obtain ⟨other, inFront | rfl | inBack, member⟩ := named
    · exact Or.inr ⟨other, Or.inl inFront, member⟩
    · exact Or.inl member
    · exact Or.inr ⟨other, Or.inr inBack, member⟩
  · intro named
    obtain member | ⟨other, around, member⟩ := named
    · exact ⟨part, Or.inr (Or.inl rfl), member⟩
    · exact ⟨other, around.imp_right Or.inr, member⟩

theorem turns_joined (noTurns : part.turns = []) :
    (Spread.joined (front ++ part :: back)).turns = (front ++ back).flatMap (·.turns) := by
  simp only [Spread.joined, List.flatMap_append, List.flatMap_cons, noTurns, List.nil_append]

theorem mem_entries_wholeSpread : entry ∈ field.wholeSpread.entries ↔
    ∃ n, entry = .value n ∧ field.least ≤ n ∧ n ≤ field.greatest := by
  simp only [Field.wholeSpread, List.mem_map, Field.mem_climb_one]
  exact ⟨fun named => named.elim fun n both => ⟨n, both.2.symm, both.1⟩,
    fun named => named.elim fun n both => ⟨n, both.2, both.1.symm⟩⟩

theorem mem_entries_joined_whole :
    entry ∈ (Spread.joined (front ++ field.wholeSpread :: back)).entries ↔
      (∃ n, entry = .value n ∧ field.least ≤ n ∧ n ≤ field.greatest) ∨
        ∃ part ∈ front ++ back, entry ∈ part.entries := by
  rw [mem_entries_joined, mem_entries_wholeSpread]

theorem Field.values_congr {entries others : List Entry}
    (same : ∀ n, field.least ≤ n → n ≤ field.greatest →
      (n ∈ field.values entries ↔ n ∈ field.values others)) :
    field.values entries = field.values others := by
  refine List.filter_congr fun n listed => ?_
  have within : field.least ≤ n ∧ n ≤ field.greatest := by
    have ordered := field.least_lt_greatest
    obtain ⟨place, bound, rfl⟩ := List.mem_map.mp listed
    rw [List.mem_range, Field.size] at bound
    omega
  have named := same n within.1 within.2
  simp only [Field.mem_values, within, true_and] at named
  rw [Bool.eq_iff_iff]
  simpa only [Bool.or_eq_true, List.contains_iff_mem] using named

/-- Where a field names all its values, another item that names them makes no difference. -/
theorem alike_of_names_all {n : Nat} (bounds : field.least ≤ n ∧ n ≤ field.greatest)
    (all : ∀ m, field.least ≤ m → m ≤ field.greatest →
      m ∈ field.values (Spread.joined (front ++ ⟨[.value n], []⟩ :: back)).entries) :
    (Spread.joined (front ++ ⟨[.value n], []⟩ :: back)).Alike field
      (.joined (front ++ field.wholeSpread :: back)) := by
  generalize point : Spread.joined (front ++ ⟨[.value n], []⟩ :: back) = one at all ⊢
  generalize grown : Spread.joined (front ++ field.wholeSpread :: back) = other
  have members (entry : Entry) : entry ∈ other.entries ↔
      entry ∈ one.entries ∨ ∃ m, entry = .value m ∧ field.least ≤ m ∧ m ≤ field.greatest := by
    rw [← point, ← grown, mem_entries_joined, mem_entries_joined, mem_entries_wholeSpread,
      List.mem_singleton]
    constructor
    · exact fun named => named.elim Or.inr fun around => Or.inl (Or.inr around)
    · rintro ((rfl | around) | whole)
      · exact Or.inl ⟨n, rfl, bounds⟩
      · exact Or.inr around
      · exact Or.inl whole
  have distinct : one.entries.Nodup ∧ other.entries.Nodup := by
    rw [← point, ← grown]
    exact ⟨nodup_eraseDups _, nodup_eraseDups _⟩
  have every : .every ∈ other.entries ↔ .every ∈ one.entries := by simp [members]
  constructor
  · refine Field.values_congr fun m least greatest => ?_
    have named := Field.mem_values.mp (all m least greatest)
    refine iff_of_true (all m least greatest) (Field.mem_values.mpr ⟨named.1, ?_⟩)
    exact named.2.imp every.mpr fun value => (members _).mpr (Or.inl value)
  · intro otherText
    by_cases star : .every ∈ one.entries
    · simp [Timetable.isOpen, star, every.mpr star]
    · have same (entry : Entry) : entry ∈ one.entries ↔ entry ∈ other.entries := by
        rw [members]
        refine ⟨Or.inl, fun named => named.elim id ?_⟩
        rintro ⟨m, rfl, least, greatest⟩
        exact (Field.mem_values.mp (all m least greatest)).2.resolve_left star
      have lengths := ((List.perm_ext_iff_of_nodup distinct.1 distinct.2).mpr same).length_eq
      simp [Timetable.isOpen, lengths, star, mt every.mp star]
  · rw [Bool.eq_iff_iff, List.contains_iff_mem, List.contains_iff_mem, members]
    simp
  · rw [← point, ← grown, turns_joined rfl, turns_joined rfl]

end Joined

theorem mixesTurns_iff {spread : Spread} : Timetable.mixesTurns spread = true ↔
    spread.turns ≠ [] ∧ spread.entries.length ≠ Field.dayOfWeek.size ∧
      ∃ day, .value day ∈ spread.entries ∧ ∀ turn ∈ spread.turns, turn.1 ≠ day := by
  simp only [Timetable.mixesTurns, Bool.and_eq_true, Bool.not_eq_true', List.isEmpty_eq_false_iff,
    bne_iff_ne, List.any_eq_true, and_assoc]
  refine and_congr_right fun _ => and_congr_right fun _ => ⟨fun found => ?_, fun found => ?_⟩
  · obtain ⟨entry, member, unturned⟩ := found
    cases entry with
    | value day => exact ⟨day, member, by simpa using unturned⟩
    | every => cases unturned
    | lastDay => cases unturned
  · obtain ⟨day, member, unturned⟩ := found
    exact ⟨.value day, member, by simpa using unturned⟩

/-- Entries that name all values of their field are more than these exactly if they name everything
as well. -/
theorem length_ne_size_iff {entries : List Entry} (distinct : entries.Nodup)
    (isOf : ∀ entry ∈ entries, entry = .every ∨
      ∃ n, entry = .value n ∧ field.least ≤ n ∧ n ≤ field.greatest)
    (all : ∀ n, field.least ≤ n → n ≤ field.greatest → .value n ∈ entries) :
    entries.length ≠ field.size ↔ .every ∈ entries := by
  by_cases every : .every ∈ entries
  · have others : (entries.erase .every).length = field.size := by
      refine (length_eq_size_iff (distinct.erase _) fun entry member => ?_).mpr
        fun n least greatest => (List.mem_erase_of_ne (by simp)).mpr (all n least greatest)
      obtain ⟨notEvery, listed⟩ := distinct.mem_erase_iff.mp member
      exact (isOf entry listed).resolve_left notEvery
    have more := List.length_erase_of_mem every
    have nonempty := List.length_pos_of_mem every
    exact iff_of_true (by omega) every
  · have within : ∀ entry ∈ entries, ∃ n, entry = .value n ∧ field.least ≤ n ∧
        n ≤ field.greatest := fun entry member =>
      (isOf entry member).resolve_left fun same => every (same ▸ member)
    exact iff_of_false (not_not_intro ((length_eq_size_iff distinct within).mpr all)) every

end Recurrence.Crontab
