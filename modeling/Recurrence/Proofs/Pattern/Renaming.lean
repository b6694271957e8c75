import Recurrence.Pattern
import Recurrence.Proofs.Text.PlainDigits

namespace Recurrence

/-! Renamed texts. A pattern whose sets do not notice that characters are replaced by others reads the
renamed text in the same ways, and captures there what it captures in the text itself. -/

variable {σ : Type} {alter : Char → Char}

/-- The set holds a character exactly if it holds what the character is replaced by. -/
def CharSet.Overlooks (alter : Char → Char) (set : CharSet) : Prop :=
  ∀ c, set.contains (alter c) = set.contains c

/-! Places -/

def Cursor.rename (alter : Char → Char) (place : Cursor) : Cursor :=
  ⟨place.before.map alter, place.rest.map alter⟩

theorem Cursor.upTo_rename (alter : Char → Char) (place later : Cursor) :
    (place.rename alter).upTo (later.rename alter) = (place.upTo later).map alter := by
  simp only [upTo, Cursor.rename, List.length_map, List.map_take]

theorem Cursor.atWordEdge_rename (overlooks : CharSet.wordChar.Overlooks alter) (place : Cursor) :
    (place.rename alter).atWordEdge = place.atWordEdge := by
  have kept (c : Char) : Text.isWordChar (alter c) = Text.isWordChar c := overlooks c
  simp only [atWordEdge, Cursor.rename, List.head?_map, Option.any_map, kept]

/-! Captures -/

def Captures.rename (alter : Char → Char) (captures : Captures σ) : Captures σ :=
  List.map (fun part => (part.1, part.2.1.rename alter, part.2.2.rename alter)) captures

theorem Captures.text?_rename [DecidableEq σ] (captures : Captures σ) (slot : σ) :
    (captures.rename alter).text? slot = (captures.text? slot).map (List.map alter) := by
  simp only [text?, Captures.rename, List.find?_map, Option.map_map, Function.comp_def,
    Cursor.upTo_rename]

theorem Captures.text_rename [DecidableEq σ] (captures : Captures σ) (slot : σ) :
    (captures.rename alter).text slot = (captures.text slot).map alter := by
  rw [text, text?_rename, text]
  cases captures.text? slot <;> rfl

def Way.rename (alter : Char → Char) (way : Way σ) : Way σ :=
  (Captures.rename alter way.1, way.2.rename alter)

theorem Way.rename_append (way further : Way σ) :
    Way.rename alter (way.1 ++ further.1, further.2) =
      ((way.rename alter).1 ++ (further.rename alter).1, (further.rename alter).2) := by
  simp only [Way.rename, Captures.rename, List.map_append]

namespace Pattern

def Occurrence.rename (alter : Char → Char) (found : Occurrence σ) : Occurrence σ :=
  ⟨found.start.rename alter, found.captures.rename alter, found.stop.rename alter⟩

theorem Occurrence.text_rename (found : Occurrence σ) :
    (found.rename alter).text = found.text.map alter :=
  Cursor.upTo_rename alter found.start found.stop

/-! Ways -/

def Overlooks (alter : Char → Char) : Pattern σ → Prop
  | .empty => True
  | .one set | .notAhead set => set.Overlooks alter
  | .seq first second => first.Overlooks alter ∧ second.Overlooks alter
  | .either preferred other => preferred.Overlooks alter ∧ other.Overlooks alter
  | .many body => body.Overlooks alter
  | .capture _ body => body.Overlooks alter
  | .wordEdge => CharSet.wordChar.Overlooks alter

theorem flatMap_rename {first second : Cursor → List (Way σ)} {ways renamed : List (Way σ)}
    (same : renamed = ways.map (Way.rename alter))
    (step : ∀ place : Cursor, second (place.rename alter) = (first place).map (Way.rename alter)) :
    (renamed.flatMap fun way =>
        (second way.2).map fun further => (way.1 ++ further.1, further.2)) =
      (ways.flatMap fun way =>
        (first way.2).map fun further => (way.1 ++ further.1, further.2)).map
          (Way.rename alter) := by
  rw [same, List.flatMap_map, List.map_flatMap]
  refine List.flatMap_congr fun way _ => ?_
  have behind : second (way.rename alter).2 = _ := step way.2
  simp only [behind, List.map_map]
  exact List.map_congr_left fun further _ => (Way.rename_append way further).symm

theorem repeated_rename {step : Cursor → List (Way σ)}
    (steps : ∀ place : Cursor, step (place.rename alter) = (step place).map (Way.rename alter))
    (limit : List Char) (place : Cursor) :
    repeated step (limit.map alter) (place.rename alter) =
      (repeated step limit place).map (Way.rename alter) := by
  induction limit generalizing place with
  | nil => rfl
  | cons c others ih =>
      rw [List.map_cons, repeated, repeated, List.map_append, flatMap_rename (steps place) ih]
      rfl

/-- The ways of reading a renamed text are those of reading the text, renamed. -/
theorem ways_rename {pattern : Pattern σ} (overlooks : pattern.Overlooks alter) (place : Cursor) :
    pattern.ways (place.rename alter) = (pattern.ways place).map (Way.rename alter) := by
  induction pattern generalizing place with
  | empty => rfl
  | one set =>
      obtain ⟨before, rest⟩ := place
      cases rest with
      | nil => rfl
      | cons c rest =>
          simp only [ways, Cursor.rename, List.map_cons, overlooks c]
          split <;> rfl
  | seq first second ihFirst ihSecond =>
      exact flatMap_rename (ihFirst overlooks.1 place) (ihSecond overlooks.2)
  | either preferred other ihPreferred ihOther =>
      rw [ways, ihPreferred overlooks.1, ihOther overlooks.2, ways, List.map_append]
  | many body ih => exact repeated_rename (ih overlooks) place.rest place
  | capture slot body ih =>
      simp only [ways, ih overlooks, List.map_map]
      rfl
  | wordEdge =>
      rw [ways, Cursor.atWordEdge_rename overlooks, ways]
      split <;> rfl
  | notAhead set =>
      have kept (c : Char) : set.contains (alter c) = set.contains c := overlooks c
      simp only [ways, Cursor.rename, List.head?_map, Option.any_map, kept]
      split <;> rfl

/-! Whole texts and searches -/

variable {pattern : Pattern σ}

theorem whole?_rename (overlooks : pattern.Overlooks alter) (text : List Char) :
    pattern.whole? (text.map alter) =
      (pattern.whole? text).map (Captures.rename alter) := by
  have ended (way : Way σ) : (way.rename alter).2.rest.isEmpty = way.2.rest.isEmpty :=
    List.isEmpty_map
  have start : Cursor.start (text.map alter) = (Cursor.start text).rename alter := rfl
  simp only [whole?, start, ways_rename overlooks, List.find?_map, Option.map_map,
    Function.comp_def, ended]
  rfl

theorem readAt?_rename (overlooks : pattern.Overlooks alter) (place : Cursor) :
    pattern.readAt? (place.rename alter) =
      (pattern.readAt? place).map (Occurrence.rename alter) := by
  simp only [readAt?, ways_rename overlooks, List.head?_map, Option.map_map]
  rfl

theorem occurrencesFrom_rename (overlooks : pattern.Overlooks alter) (covered : Nat)
    (before : Option Char) (text : List Char) :
    pattern.occurrencesFrom covered (before.map alter) (text.map alter) =
      (pattern.occurrencesFrom covered before text).map (Occurrence.rename alter) := by
  have here (before : Option Char) (text : List Char) :
      pattern.readAt? ⟨before.map alter, text.map alter⟩ =
        (pattern.readAt? ⟨before, text⟩).map (Occurrence.rename alter) :=
    readAt?_rename overlooks ⟨before, text⟩
  induction text generalizing covered before with
  | nil =>
      have last := here before []
      rw [List.map_nil] at last
      simp only [List.map_nil, occurrencesFrom, last]
      cases pattern.readAt? ⟨before, []⟩ <;> rfl
  | cons c rest ih =>
      have behind (covered : Nat) := ih covered (some c)
      simp only [Option.map_some] at behind
      cases covered with
      | succ covered => exact behind covered
      | zero =>
          have found := here before (c :: rest)
          simp only [List.map_cons] at found
          simp only [List.map_cons, occurrencesFrom, found]
          cases pattern.readAt? ⟨before, c :: rest⟩ with
          | none => exact behind 0
          | some found =>
              simp only [Option.map_some, Occurrence.text_rename, List.length_map, behind,
                List.map_cons]

theorem occurrences_rename (overlooks : pattern.Overlooks alter) (text : List Char) :
    pattern.occurrences (text.map alter) =
      (pattern.occurrences text).map (Occurrence.rename alter) :=
  occurrencesFrom_rename overlooks 0 none text

theorem occurs_rename (overlooks : pattern.Overlooks alter) (text : List Char) :
    pattern.occurs (text.map alter) = pattern.occurs text := by
  rw [occurs, occurrences_rename overlooks, List.isEmpty_map, occurs]

end Pattern

/-! Digits made plain -/

/-- The set names no digit, so it does not tell the scripts of digits apart. -/
def CharSet.namesNoDigit : CharSet → Bool
  | .exactly c => !Text.isDigit c
  | .eitherCase c => !Text.isDigit c && !Text.isDigit c.toUpper
  | .digit | .blank | .wordChar => true
  | .union left right => left.namesNoDigit && right.namesNoDigit

theorem CharSet.overlooks_plainDigit {set : CharSet} (noDigit : set.namesNoDigit = true) :
    set.Overlooks Text.plainDigit := by
  induction set with
  | exactly d =>
      simp only [namesNoDigit, Bool.not_eq_true'] at noDigit
      exact Text.beq_plainDigit noDigit
  | eitherCase d =>
      simp only [namesNoDigit, Bool.and_eq_true, Bool.not_eq_true'] at noDigit
      intro c
      rw [contains, Text.beq_plainDigit noDigit.1, Text.beq_plainDigit noDigit.2, contains]
  | digit => exact Text.isDigit_plainDigit
  | blank => exact Text.isBlank_plainDigit
  | wordChar => exact Text.isWordChar_plainDigit
  | union left right ihLeft ihRight =>
      simp only [namesNoDigit, Bool.and_eq_true] at noDigit
      intro c
      rw [contains, ihLeft noDigit.1 c, ihRight noDigit.2 c, contains]

def Pattern.namesNoDigit : Pattern σ → Bool
  | .empty | .wordEdge => true
  | .one set | .notAhead set => set.namesNoDigit
  | .seq first second => first.namesNoDigit && second.namesNoDigit
  | .either preferred other => preferred.namesNoDigit && other.namesNoDigit
  | .many body => body.namesNoDigit
  | .capture _ body => body.namesNoDigit

theorem Pattern.overlooks_plainDigit {pattern : Pattern σ} (noDigit : pattern.namesNoDigit = true) :
    pattern.Overlooks Text.plainDigit := by
  induction pattern with
  | empty => trivial
  | wordEdge => exact CharSet.overlooks_plainDigit rfl
  | one set | notAhead set => exact CharSet.overlooks_plainDigit noDigit
  | seq first second ihFirst ihSecond =>
      simp only [namesNoDigit, Bool.and_eq_true] at noDigit
      exact ⟨ihFirst noDigit.1, ihSecond noDigit.2⟩
  | either preferred other ihPreferred ihOther =>
      simp only [namesNoDigit, Bool.and_eq_true] at noDigit
      exact ⟨ihPreferred noDigit.1, ihOther noDigit.2⟩
  | many body ih | capture _ body ih => exact ih noDigit

end Recurrence
