import Recurrence.Proofs.Pattern.Language
import Recurrence.Proofs.Pattern.Search

namespace Recurrence.Pattern

/-! What readings capture. A slot is only filled where the pattern captures it, and with a text of
the language that the pattern has there. Some slots are filled by every reading. -/

variable {σ : Type} {pattern : Pattern σ} {place : Cursor} {way : Way σ} {slot : σ}

/-- The slots of a pattern, each with the pattern of what it is filled with. -/
def bodies : Pattern σ → List (σ × Pattern σ)
  | .empty | .one _ | .wordEdge | .notAhead _ => []
  | .seq first second => first.bodies ++ second.bodies
  | .either preferred other => preferred.bodies ++ other.bodies
  | .many body => body.bodies
  | .capture slot body => (slot, body) :: body.bodies

def slots (pattern : Pattern σ) : List σ :=
  pattern.bodies.map Prod.fst

theorem slots_seq (first second : Pattern σ) :
    (seq first second).slots = first.slots ++ second.slots :=
  List.map_append

theorem forall_part_of_mem_repeated {body : Pattern σ} {limit : List Char}
    {property : σ × Cursor × Cursor → Prop}
    (step : ∀ {place : Cursor} {way : Way σ}, way ∈ body.ways place → ∀ part ∈ way.1, property part)
    (member : way ∈ repeated (fun inner => body.ways inner) limit place) :
    ∀ part ∈ way.1, property part := by
  induction limit generalizing place way with
  | nil =>
      rw [repeated, List.mem_singleton] at member
      subst member
      exact fun _ inside => by cases inside
  | cons _ others ih =>
      rcases List.mem_append.mp member with more | stop
      · obtain ⟨once, inBody, inMore⟩ := List.mem_flatMap.mp more
        obtain ⟨further, inRepeated, rfl⟩ := List.mem_map.mp inMore
        exact List.forall_mem_append.mpr ⟨step inBody, ih inRepeated⟩
      · rw [List.mem_singleton] at stop
        subst stop
        exact fun _ inside => by cases inside

/-- Only the slots of a pattern are ever filled by it, each with a text that its own pattern reads. -/
theorem exists_body_of_mem_ways (member : way ∈ pattern.ways place) :
    ∀ part ∈ way.1, ∃ body, (part.1, body) ∈ pattern.bodies ∧
      body.Matches (part.2.1.upTo part.2.2) := by
  induction pattern generalizing place way with
  | empty =>
      rw [ways, List.mem_singleton] at member
      subst member
      exact fun _ inside => by cases inside
  | one set | wordEdge | notAhead set =>
      have nothing : way.1 = [] := by
        unfold ways at member
        repeat' split at member
        all_goals simp_all
      rw [nothing]
      exact fun _ inside => by cases inside
  | seq first second ihFirst ihSecond =>
      obtain ⟨once, inFirst, inSecond⟩ := List.mem_flatMap.mp member
      obtain ⟨further, inFurther, rfl⟩ := List.mem_map.mp inSecond
      refine List.forall_mem_append.mpr ⟨fun part inside => ?_, fun part inside => ?_⟩
      · obtain ⟨body, listed, reads⟩ := ihFirst inFirst part inside
        exact ⟨body, List.mem_append_left _ listed, reads⟩
      · obtain ⟨body, listed, reads⟩ := ihSecond inFurther part inside
        exact ⟨body, List.mem_append_right _ listed, reads⟩
  | either preferred other ihPreferred ihOther =>
      intro part inside
      rcases List.mem_append.mp member with inPreferred | inOther
      · obtain ⟨body, listed, reads⟩ := ihPreferred inPreferred part inside
        exact ⟨body, List.mem_append_left _ listed, reads⟩
      · obtain ⟨body, listed, reads⟩ := ihOther inOther part inside
        exact ⟨body, List.mem_append_right _ listed, reads⟩
  | many body ih => exact forall_part_of_mem_repeated ih member
  | capture slot body ih =>
      obtain ⟨inner, inBody, rfl⟩ := List.mem_map.mp member
      refine List.forall_mem_cons.mpr ⟨⟨body, List.mem_cons_self, ?_⟩, fun part inside => ?_⟩
      · obtain ⟨read, cut, reads⟩ := matches_of_mem_ways inBody
        rwa [upTo_of_rest_eq cut]
      · obtain ⟨found, listed, reads⟩ := ih inBody part inside
        exact ⟨found, List.mem_cons_of_mem _ listed, reads⟩

theorem captures_eq_nil (silent : pattern.slots = []) (member : way ∈ pattern.ways place) :
    way.1 = [] := by
  refine List.eq_nil_iff_forall_not_mem.mpr fun part inside => ?_
  obtain ⟨body, listed, _⟩ := exists_body_of_mem_ways member part inside
  rw [List.map_eq_nil_iff.mp silent] at listed
  cases listed

theorem exists_way_of_whole? {text : List Char} {captures : Captures σ}
    (read : pattern.whole? text = some captures) :
    ∃ way ∈ pattern.ways (.start text), way.1 = captures := by
  obtain ⟨way, ended, rfl⟩ := Option.map_eq_some_iff.mp read
  exact ⟨way, List.mem_of_find?_eq_some ended, rfl⟩

variable [DecidableEq σ]

/-- The slots that no reading of the pattern leaves empty. -/
def filled : Pattern σ → List σ
  | .empty | .one _ | .wordEdge | .notAhead _ | .many _ => []
  | .seq first second => first.filled ++ second.filled
  | .either preferred other => preferred.filled.filter (· ∈ other.filled)
  | .capture slot body => slot :: body.filled

theorem exists_part_of_mem_filled (fills : slot ∈ pattern.filled)
    (member : way ∈ pattern.ways place) : ∃ part ∈ way.1, part.1 = slot := by
  induction pattern generalizing place way with
  | empty | one _ | wordEdge | notAhead _ | many _ => cases fills
  | seq first second ihFirst ihSecond =>
      obtain ⟨once, inFirst, further, inFurther, rfl⟩ := mem_ways_seq.mp member
      rcases List.mem_append.mp fills with byFirst | bySecond
      · obtain ⟨part, inside, same⟩ := ihFirst byFirst inFirst
        exact ⟨part, List.mem_append_left _ inside, same⟩
      · obtain ⟨part, inside, same⟩ := ihSecond bySecond inFurther
        exact ⟨part, List.mem_append_right _ inside, same⟩
  | either preferred other ihPreferred ihOther =>
      obtain ⟨byPreferred, byOther⟩ := List.mem_filter.mp fills
      rcases List.mem_append.mp member with inPreferred | inOther
      · exact ihPreferred byPreferred inPreferred
      · exact ihOther (of_decide_eq_true byOther) inOther
  | capture own body ih =>
      obtain ⟨inner, inBody, rfl⟩ := List.mem_map.mp member
      rcases List.mem_cons.mp fills with rfl | further
      · exact ⟨_, List.mem_cons_self, rfl⟩
      · obtain ⟨part, inside, same⟩ := ih further inBody
        exact ⟨part, List.mem_cons_of_mem _ inside, same⟩

/-! Texts of slots -/

theorem exists_body_of_text? {text : List Char} (member : way ∈ pattern.ways place)
    (captured : way.1.text? slot = some text) :
    ∃ body, (slot, body) ∈ pattern.bodies ∧ body.Matches text := by
  obtain ⟨part, found, rfl⟩ := Option.map_eq_some_iff.mp captured
  obtain ⟨body, listed, reads⟩ :=
    exists_body_of_mem_ways member part (List.mem_of_find?_eq_some found)
  have same : part.1 = slot := by simpa using List.find?_some found
  exact ⟨body, same ▸ listed, reads⟩

theorem text?_eq_none_of_not_mem_slots (absent : slot ∉ pattern.slots)
    (member : way ∈ pattern.ways place) : way.1.text? slot = none := by
  cases captured : way.1.text? slot with
  | none => rfl
  | some text =>
      obtain ⟨body, listed, _⟩ := exists_body_of_text? member captured
      exact absurd (List.mem_map_of_mem listed) absent

theorem isSome_text?_of_mem_filled (fills : slot ∈ pattern.filled)
    (member : way ∈ pattern.ways place) : (way.1.text? slot).isSome := by
  obtain ⟨part, inside, same⟩ := exists_part_of_mem_filled fills member
  rw [Captures.text?, Option.isSome_map, List.find?_isSome]
  exact ⟨part, inside, decide_eq_true same⟩

theorem exists_body_of_mem_occurrences {text : List Char} {found : Occurrence σ}
    (fills : slot ∈ pattern.filled) (member : found ∈ pattern.occurrences text) :
    ∃ body, (slot, body) ∈ pattern.bodies ∧ body.Matches (found.captures.text slot) := by
  obtain ⟨front, rest, _, read⟩ := exists_place_of_mem_occurrences member
  have inWays := (readAt?_eq_some read).2
  obtain ⟨part, captured⟩ := Option.isSome_iff_exists.mp (isSome_text?_of_mem_filled fills inWays)
  rw [Captures.text, show found.captures.text? slot = some part from captured]
  exact exists_body_of_text? inWays captured

end Recurrence.Pattern
