import Mathlib.Data.List.Basic
import Recurrence.Proofs.Pattern.Apart
import Recurrence.Proofs.Pattern.Captured
import Recurrence.Proofs.Pattern.Preferred

namespace Recurrence

/-! Texts that go on. A pattern that looks at the characters it reads only, and at none around them, is
read at the front of a longer text as in the front alone, and each text of its language is read. So
where the front of a text is the only one that such a pattern can read, what is captured there does
not depend on what follows. -/

variable {σ : Type}

/-! Places and captures in a longer text -/

def Cursor.extend (place : Cursor) (more : List Char) : Cursor :=
  ⟨place.before, place.rest ++ more⟩

def Captures.extend (captures : Captures σ) (more : List Char) : Captures σ :=
  captures.map fun part => (part.1, part.2.1.extend more, part.2.2.extend more)

def Way.extend (way : Way σ) (more : List Char) : Way σ :=
  (Captures.extend way.1 more, way.2.extend more)

theorem Cursor.upTo_extend (place later : Cursor) (more : List Char) :
    (place.extend more).upTo (later.extend more) = place.upTo later := by
  simp only [upTo, extend, List.length_append, Nat.add_sub_add_right]
  exact List.take_append_of_le_length (Nat.sub_le _ _)

theorem Captures.text?_extend [DecidableEq σ] (captures : Captures σ) (more : List Char)
    (slot : σ) : text? (captures.extend more) slot = captures.text? slot := by
  simp only [text?, extend, List.find?_map, Option.map_map, Function.comp_def, Cursor.upTo_extend]

namespace Pattern

variable {pattern : Pattern σ} {place : Cursor} {way : Way σ} {text more : List Char}

/-- Patterns that look at nothing but what they read, and read something in every repetition. -/
def isPlain : Pattern σ → Bool
  | .empty | .one _ => true
  | .seq first second => first.isPlain && second.isPlain
  | .either preferred other => preferred.isPlain && other.isPlain
  | .many body => body.isPlain && !body.skips
  | .capture _ body => body.isPlain
  | .wordEdge | .notAhead _ => false

theorem rest_length_le (member : way ∈ pattern.ways place) :
    way.2.rest.length ≤ place.rest.length := by
  obtain ⟨read, cut, _⟩ := matches_of_mem_ways member
  rw [cut, List.length_append]
  omega

theorem rest_length_lt (solid : pattern.skips = false) (member : way ∈ pattern.ways place) :
    way.2.rest.length < place.rest.length := by
  obtain ⟨read, cut, reads⟩ := matches_of_mem_ways member
  have nonempty : read ≠ [] := by
    rintro rfl
    rw [skips_of_matches_nil reads] at solid
    cases solid
  have := List.length_pos_iff.mpr nonempty
  rw [cut, List.length_append]
  omega

/-! Repetitions -/

/-- How many repetitions are allowed makes no difference once there are as many as characters. -/
theorem repeated_congr {step : Cursor → List (Way σ)}
    (consumes : ∀ place, ∀ way ∈ step place, way.2.rest.length < place.rest.length)
    {one other : List Char} (enough : place.rest.length ≤ one.length)
    (alsoEnough : place.rest.length ≤ other.length) :
    repeated step one place = repeated step other place := by
  have stuck {place : Cursor} (ended : place.rest.length ≤ 0) : step place = [] := by
    refine List.eq_nil_iff_forall_not_mem.mpr fun way member => ?_
    have := consumes place way member
    omega
  induction one generalizing other place with
  | nil =>
      cases other with
      | nil => rfl
      | cons d other => simp [repeated, stuck enough]
  | cons c one ih =>
      cases other with
      | nil => simp [repeated, stuck alsoEnough]
      | cons d other =>
          simp only [List.length_cons] at enough alsoEnough
          have onward : ∀ way ∈ step place, repeated step one way.2 = repeated step other way.2 := by
            intro way member
            have := consumes place way member
            exact ih (by omega) (by omega)
          simp only [repeated]
          congr 1
          exact List.flatMap_congr fun way member => by rw [onward way member]

/-! Ways in a longer text -/

/-- The ways that do not reach into what follows. -/
def leaving (more : List Char) (ways : List (Way σ)) : List (Way σ) :=
  ways.filter fun way => more.length ≤ way.2.rest.length

theorem leaving_append (ways others : List (Way σ)) :
    leaving more (ways ++ others) = leaving more ways ++ leaving more others :=
  List.filter_append ..

theorem leaving_eq_nil {ways : List (Way σ)}
    (beyond : ∀ way ∈ ways, way.2.rest.length < more.length) : leaving more ways = [] := by
  refine List.filter_eq_nil_iff.mpr fun way member => ?_
  simpa using beyond way member

theorem leaving_stop (place : Cursor) : leaving more [(([], place.extend more) : Way σ)] =
    ([([], place)] : List (Way σ)).map (·.extend more) := by
  simp [leaving, Way.extend, Captures.extend, Cursor.extend]

/-- Ways that go on from one place, with what was captured on the way to it. -/
def behind (captures : Captures σ) (ways : List (Way σ)) : List (Way σ) :=
  ways.map fun further => (captures ++ further.1, further.2)

theorem leaving_behind (captures : Captures σ) (ways : List (Way σ)) :
    leaving more (behind captures ways) = behind captures (leaving more ways) := by
  simp only [leaving, behind, List.filter_map, Function.comp_def]

theorem behind_extend (captures : Captures σ) (ways : List (Way σ)) :
    behind (captures.extend more) (ways.map (·.extend more)) =
      (behind captures ways).map (·.extend more) := by
  simp only [behind, List.map_map, Function.comp_def, Way.extend, Captures.extend,
    List.map_append]

/-- No way leads back from where what follows was reached. -/
theorem leaving_flatMap {ways : List (Way σ)} {next : Cursor → List (Way σ)}
    (shrinks : ∀ way ∈ ways, ∀ last ∈ next way.2, last.2.rest.length ≤ way.2.rest.length) :
    leaving more (ways.flatMap fun way => behind way.1 (next way.2)) =
      (leaving more ways).flatMap fun way => behind way.1 (leaving more (next way.2)) := by
  induction ways with
  | nil => rfl
  | cons way ways ih =>
      obtain ⟨shrinksHere, shrinksLater⟩ := List.forall_mem_cons.mp shrinks
      rw [List.flatMap_cons, leaving_append, leaving_behind, ih shrinksLater]
      by_cases inside : more.length ≤ way.2.rest.length
      · rw [show leaving more (way :: ways) = way :: leaving more ways from
          List.filter_cons_of_pos (by simpa using inside), List.flatMap_cons]
      · have nothing : leaving more (next way.2) = [] := by
          refine leaving_eq_nil fun last member => ?_
          have := shrinksHere last member
          omega
        rw [show leaving more (way :: ways) = leaving more ways from
          List.filter_cons_of_neg (by simpa using inside), nothing]
        rfl

/-- Where the first steps extend, and each step from there on, all of it extends. -/
theorem flatMap_extend {first longer : List (Way σ)} {next further : Cursor → List (Way σ)}
    (same : leaving more longer = first.map (·.extend more))
    (onward : ∀ way ∈ first, leaving more (further (way.2.extend more)) =
      (next way.2).map (·.extend more))
    (shrinks : ∀ way ∈ longer, ∀ last ∈ further way.2, last.2.rest.length ≤ way.2.rest.length) :
    leaving more (longer.flatMap fun way => behind way.1 (further way.2)) =
      (first.flatMap fun way => behind way.1 (next way.2)).map (·.extend more) := by
  rw [leaving_flatMap shrinks, same, List.flatMap_map, List.map_flatMap]
  refine List.flatMap_congr fun way member => ?_
  rw [show (way.extend more).2 = way.2.extend more from rfl, onward way member]
  exact behind_extend way.1 (next way.2)

theorem mem_repeated_rest_length_le {step : Cursor → List (Way σ)}
    (shrinks : ∀ place, ∀ way ∈ step place, way.2.rest.length ≤ place.rest.length)
    {limit : List Char} (member : way ∈ repeated step limit place) :
    way.2.rest.length ≤ place.rest.length := by
  induction limit generalizing place way with
  | nil =>
      cases List.mem_singleton.mp member
      exact Nat.le_refl _
  | cons _ others ih =>
      rcases List.mem_append.mp member with more | stop
      · obtain ⟨once, inStep, inMore⟩ := List.mem_flatMap.mp more
        obtain ⟨further, inRepeated, rfl⟩ := List.mem_map.mp inMore
        have shorter := ih inRepeated
        exact Nat.le_trans shorter (shrinks place once inStep)
      · cases List.mem_singleton.mp stop
        exact Nat.le_refl _

theorem repeated_extend {step : Cursor → List (Way σ)}
    (shrinks : ∀ place, ∀ way ∈ step place, way.2.rest.length ≤ place.rest.length)
    (extend : ∀ place : Cursor, leaving more (step (place.extend more)) =
      (step place).map (·.extend more)) (limit : List Char) (place : Cursor) :
    leaving more (repeated step limit (place.extend more)) =
      (repeated step limit place).map (·.extend more) := by
  induction limit generalizing place with
  | nil => exact leaving_stop place
  | cons _ others ih =>
      have onward : ∀ way ∈ step place, leaving more (repeated step others (way.2.extend more)) =
          (repeated step others way.2).map (·.extend more) := fun way _ => ih way.2
      have extended := flatMap_extend (extend place) onward
        fun way _ last member => mem_repeated_rest_length_le shrinks member
      simp only [repeated, leaving_append, List.map_append]
      rw [leaving_stop]
      exact congrArg (· ++ _) extended

/-- At the front of a longer text a plain pattern is read as in the front alone. -/
theorem ways_extend (plain : pattern.isPlain = true) :
    leaving more (pattern.ways (place.extend more)) =
      (pattern.ways place).map (·.extend more) := by
  induction pattern generalizing place with
  | empty => exact leaving_stop place
  | one set =>
      obtain ⟨before, rest⟩ := place
      cases rest with
      | nil =>
          have solid : (one set : Pattern σ).skips = false := rfl
          exact leaving_eq_nil fun way member => rest_length_lt solid member
      | cons c rest =>
          simp only [ways, Cursor.extend, List.cons_append]
          split <;> simp [leaving, Way.extend, Captures.extend, Cursor.extend]
  | seq first second ihFirst ihSecond =>
      obtain ⟨plainFirst, plainSecond⟩ := Bool.and_eq_true_iff.mp plain
      have onward : ∀ way ∈ first.ways place, leaving more (second.ways (way.2.extend more)) =
          (second.ways way.2).map (·.extend more) := fun way _ => ihSecond plainSecond
      exact flatMap_extend (ihFirst plainFirst) onward fun way _ last member => rest_length_le member
  | either preferred other ihPreferred ihOther =>
      obtain ⟨plainPreferred, plainOther⟩ := Bool.and_eq_true_iff.mp plain
      rw [ways, leaving_append, ihPreferred plainPreferred, ihOther plainOther, ways, List.map_append]
  | many body ih =>
      obtain ⟨plainBody, consuming⟩ := Bool.and_eq_true_iff.mp plain
      have solid : body.skips = false := by simpa using consuming
      have consumes (place : Cursor) : ∀ way ∈ body.ways place,
          way.2.rest.length < place.rest.length := fun way => rest_length_lt solid
      have enough : place.rest.length ≤ (place.extend more).rest.length := by
        simp [Cursor.extend]
      rw [ways, ways, repeated_congr consumes (Nat.le_refl place.rest.length) enough]
      exact repeated_extend (fun place way member => Nat.le_of_lt (consumes place way member))
        (fun place => ih plainBody) _ place
  | capture slot body ih =>
      have same : leaving more (body.ways (place.extend more)) =
          (body.ways place).map (·.extend more) := ih plain
      simp only [leaving] at same
      simp only [ways, leaving, List.filter_map, Function.comp_def, same, List.map_map]
      rfl
  | wordEdge | notAhead _ => cases plain

/-! Texts of the language -/

theorem exists_repeated_of_matches {body : Pattern σ}
    (reads : ∀ {text}, body.Matches text → ∀ before rest,
      ∃ way ∈ body.ways ⟨before, text ++ rest⟩, way.2.rest = rest)
    (solid : body.skips = false) {pieces : List (List Char)}
    (readsPieces : ∀ piece ∈ pieces, body.Matches piece) (before : Option Char) (rest : List Char)
    {limit : List Char} (enough : (pieces.flatten ++ rest).length ≤ limit.length) :
    ∃ way ∈ repeated (fun inner => body.ways inner) limit ⟨before, pieces.flatten ++ rest⟩,
      way.2.rest = rest := by
  induction pieces generalizing before limit with
  | nil =>
      refine ⟨([], ⟨before, rest⟩), ?_, rfl⟩
      cases limit with
      | nil => exact List.mem_singleton_self _
      | cons _ others => exact List.mem_append_right _ (List.mem_singleton_self _)
  | cons piece pieces ih =>
      obtain ⟨readsPiece, readsOthers⟩ := List.forall_mem_cons.mp readsPieces
      obtain ⟨once, inBody, reached⟩ := reads readsPiece before (pieces.flatten ++ rest)
      have consumed := rest_length_lt solid inBody
      rw [reached, ← List.append_assoc, ← List.flatten_cons] at consumed
      cases limit with
      | nil => exact absurd (Nat.lt_of_lt_of_le consumed enough) (Nat.not_lt_zero _)
      | cons _ others =>
          have fewer : (pieces.flatten ++ rest).length ≤ others.length := by
            simp only [List.length_cons] at enough
            exact Nat.le_of_lt_succ (Nat.lt_of_lt_of_le consumed enough)
          obtain ⟨further, inRepeated, ended⟩ := ih readsOthers once.2.before fewer
          rw [← reached] at inRepeated
          refine ⟨(once.1 ++ further.1, further.2), List.mem_append_left _ (List.mem_flatMap.mpr
            ⟨once, ?_, List.mem_map_of_mem inRepeated⟩), ended⟩
          rwa [List.flatten_cons, List.append_assoc]

/-- A plain pattern has a way through each text of its language, wherever it stands. -/
theorem exists_way_of_matches (plain : pattern.isPlain = true) (reads : pattern.Matches text)
    (before : Option Char) (rest : List Char) :
    ∃ way ∈ pattern.ways ⟨before, text ++ rest⟩, way.2.rest = rest := by
  induction pattern generalizing text before rest with
  | empty =>
      cases reads
      exact ⟨([], ⟨before, rest⟩), List.mem_singleton_self _, rfl⟩
  | one set =>
      obtain ⟨c, rfl, contained⟩ := reads
      exact ⟨([], ⟨some c, rest⟩), by simp [ways, contained], rfl⟩
  | seq first second ihFirst ihSecond =>
      obtain ⟨plainFirst, plainSecond⟩ := Bool.and_eq_true_iff.mp plain
      obtain ⟨front, back, rfl, readsFront, readsBack⟩ := reads
      obtain ⟨once, inFirst, reached⟩ := ihFirst plainFirst readsFront before (back ++ rest)
      obtain ⟨further, inSecond, ended⟩ := ihSecond plainSecond readsBack once.2.before rest
      rw [← reached] at inSecond
      rw [List.append_assoc]
      exact ⟨_, mem_ways_seq.mpr ⟨once, inFirst, further, inSecond, rfl⟩, ended⟩
  | either preferred other ihPreferred ihOther =>
      obtain ⟨plainPreferred, plainOther⟩ := Bool.and_eq_true_iff.mp plain
      rcases reads with reads | reads
      · obtain ⟨way, member, ended⟩ := ihPreferred plainPreferred reads before rest
        exact ⟨way, List.mem_append_left _ member, ended⟩
      · obtain ⟨way, member, ended⟩ := ihOther plainOther reads before rest
        exact ⟨way, List.mem_append_right _ member, ended⟩
  | many body ih =>
      obtain ⟨plainBody, consuming⟩ := Bool.and_eq_true_iff.mp plain
      obtain ⟨pieces, rfl, readsPieces⟩ := reads
      exact exists_repeated_of_matches (fun reads => ih plainBody reads) (by simpa using consuming)
        readsPieces before rest (Nat.le_refl _)
  | capture slot body ih =>
      obtain ⟨way, member, ended⟩ := ih plain reads before rest
      exact ⟨_, List.mem_map_of_mem member, ended⟩
  | wordEdge | notAhead _ => cases plain

theorem isSome_toEnd?_of_matches (plain : pattern.isPlain = true)
    (reads : pattern.Matches place.rest) : (pattern.toEnd? place).isSome := by
  obtain ⟨way, member, ended⟩ := exists_way_of_matches plain reads place.before []
  rw [List.append_nil] at member
  rw [toEnd?, List.find?_isSome]
  exact ⟨way, member, by rw [ended]; rfl⟩

end Pattern

end Recurrence
