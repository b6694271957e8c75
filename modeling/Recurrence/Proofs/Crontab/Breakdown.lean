import Recurrence.Crontab.Breakdown
import Recurrence.Proofs.Crontab.FieldLanguage

namespace Recurrence.Crontab

/-! What the explanation of a field tells about it. An explanation is a form of words around pieces of
the field's text, and no two forms are ever the same words. So no text of a field is lost in its
explanation, and the words mean what the field means, except for steps over a part of a field. -/

/-- The forms of an explanation, with the pieces of text that each of them tells. -/
inductive Telling where
  | every
  | everyStep (step : List Char)
  | list (items : List Char)
  | through (first last : List Char)
  | single (value : List Char)
deriving DecidableEq, Repr

namespace Telling

def text (label : List Char) : Telling → List Char
  | .every => "every ".toList ++ label
  | .everyStep step => "every ".toList ++ (step ++ ' ' :: (label ++ "(s)".toList))
  | .list items => "at ".toList ++ (label ++ ("(s) ".toList ++ items))
  | .through first last => label ++ ("s ".toList ++ (first ++ (" through ".toList ++ last)))
  | .single value => "at ".toList ++ (label ++ ' ' :: value)

@[simp] theorem text_every (label : List Char) : every.text label = "every ".toList ++ label := rfl

@[simp] theorem text_everyStep (label step : List Char) : (everyStep step).text label =
    "every ".toList ++ (step ++ ' ' :: (label ++ "(s)".toList)) := rfl

@[simp] theorem text_list (label items : List Char) : (list items).text label =
    "at ".toList ++ (label ++ ("(s) ".toList ++ items)) := rfl

@[simp] theorem text_through (label first last : List Char) : (through first last).text label =
    label ++ ("s ".toList ++ (first ++ (" through ".toList ++ last))) := rfl

@[simp] theorem text_single (label value : List Char) : (single value).text label =
    "at ".toList ++ (label ++ ' ' :: value) := rfl

/-- The form that a field's text is explained in. -/
def ofField (value : List Char) : Telling :=
  if value = ['*'] then .every
  else if ['*', '/'].isPrefixOf value then .everyStep (value.drop 2)
  else if value.contains ',' then .list value
  else match Text.splitFirst? '-' value with
    | some (first, last) => .through first last
    | none => .single value

/-- The text of the field that is explained in a form. -/
def field : Telling → List Char
  | .every => ['*']
  | .everyStep step => '*' :: '/' :: step
  | .list items => items
  | .through first last => first ++ '-' :: last
  | .single value => value

variable {label value : List Char} {one other : Telling}

theorem explainField_eq (value label : List Char) :
    explainField value label = (ofField value).text label := by
  unfold explainField ofField
  repeat' split
  all_goals first | rfl | simp_all

theorem field_ofField (value : List Char) : (ofField value).field = value := by
  unfold ofField
  split
  · rename_i star
    exact star.symm
  · split
    · rename_i opens
      obtain ⟨step, rfl⟩ := List.isPrefixOf_iff_prefix.mp opens
      rfl
    · split
      · rfl
      · split
        · rename_i first last cut
          exact (Text.eq_append_of_splitFirst? cut).1.symm
        · rfl

theorem ofField_injective {value second : List Char} (same : ofField value = ofField second) :
    value = second := by
  rw [← field_ofField value, same, field_ofField]

/-! Forms that are not the same words -/

def IsThrough : Telling → Prop
  | .through _ _ => True
  | _ => False

theorem text_every_ne_everyStep (label step : List Char) :
    every.text label ≠ (everyStep step).text label := by
  intro same
  have length := congrArg List.length same
  simp only [text_every, text_everyStep, List.length_append, List.length_cons] at length
  omega

/-- Forms without "through" tell their pieces apart, whatever is explained. -/
theorem eq_of_text_eq_of_not_through (notOne : ¬ one.IsThrough) (notOther : ¬ other.IsThrough)
    (same : one.text label = other.text label) : one = other := by
  cases one with
  | every =>
      cases other with
      | every => rfl
      | everyStep step => exact absurd same (text_every_ne_everyStep label step)
      | list | single => simp at same
      | through => exact absurd trivial notOther
  | everyStep step =>
      cases other with
      | every => exact absurd same.symm (text_every_ne_everyStep label step)
      | everyStep => simpa using same
      | list | single => simp at same
      | through => exact absurd trivial notOther
  | list items =>
      cases other with
      | list => simpa using same
      | every | everyStep | single => simp at same
      | through => exact absurd trivial notOther
  | single value =>
      cases other with
      | single => simpa using same
      | every | everyStep | list => simp at same
      | through => exact absurd trivial notOther
  | through => exact absurd trivial notOne

/-- The pieces around "through" are told apart by their blanks, of which one side has none. -/
theorem through_eq_of_text_eq {first last otherFirst otherLast : List Char}
    (solidFirst : ' ' ∉ first) (solidLast : ' ' ∉ last)
    (same : (through first last).text label = (through otherFirst otherLast).text label) :
    through first last = through otherFirst otherLast := by
  have pieces : first ++ (" through ".toList ++ last) =
      otherFirst ++ (" through ".toList ++ otherLast) := by
    simpa using same
  have blanks := congrArg (List.count ' ') pieces
  simp only [List.count_append, List.count_eq_zero.mpr solidFirst, List.count_eq_zero.mpr solidLast]
    at blanks
  have otherSolid : ' ' ∉ otherFirst := List.count_eq_zero.mp (by omega)
  have ⟨sameFirst, behind⟩ : first = otherFirst ∧
      "through ".toList ++ last = "through ".toList ++ otherLast :=
    Text.eq_of_append_eq_append solidFirst otherSolid pieces
  rw [sameFirst, List.append_cancel_left behind]

theorem eq_of_text_eq (alike : one.IsThrough ↔ other.IsThrough)
    (solid : one.IsThrough → ' ' ∉ one.field) (same : one.text label = other.text label) :
    one = other := by
  by_cases isThrough : one.IsThrough
  · have noBlank := solid isThrough
    have otherThrough := alike.mp isThrough
    cases one with
    | through first last =>
        simp only [field, List.mem_append, List.mem_cons, not_or] at noBlank
        cases other with
        | through => exact through_eq_of_text_eq noBlank.1 noBlank.2.2 same
        | every | everyStep | list | single => cases otherThrough
    | every | everyStep | list | single => cases isThrough
  · exact eq_of_text_eq_of_not_through isThrough (alike.not.mp isThrough) same

/-- Where a text begins again behind some words, what follows its first copy is among the words. -/
theorem mem_of_overlap {words text behind rest : List Char} {c : Char} (nonempty : words ≠ [])
    (same : text ++ c :: behind = words ++ (text ++ rest)) : c ∈ words := by
  induction length : text.length using Nat.strongRecOn generalizing text with
  | ind count ih =>
      rcases List.append_eq_append_iff.mp same with ⟨more, rfl, onward⟩ | ⟨more, rfl, onward⟩
      · cases more with
        | nil =>
            rw [List.append_nil] at nonempty ⊢
            obtain ⟨d, text, rfl⟩ := List.exists_cons_of_ne_nil nonempty
            cases onward
            exact List.mem_cons_self
        | cons d more =>
            cases onward
            exact List.mem_append_right _ List.mem_cons_self
      · have shorter : more.length < count := by
          have := List.length_pos_iff.mpr nonempty
          rw [List.length_append] at length
          omega
        have again : more ++ c :: behind = words ++ (more ++ rest) := by
          rw [← onward, List.append_assoc]
        exact ih more.length shorter again rfl

theorem plural_mem_of_text_eq {first last words rest : List Char} (nonempty : words ≠ [])
    (same : (through first last).text label = words ++ (label ++ rest)) : 's' ∈ words := by
  have overlap : label ++ 's' :: (' ' :: (first ++ (" through ".toList ++ last))) =
      words ++ (label ++ rest) := same
  exact mem_of_overlap nonempty overlap

theorem isThrough_of_text_eq {first last : List Char}
    (noPlural : ∀ step, one = .everyStep step → 's' ∉ step)
    (same : (through first last).text label = one.text label) : one.IsThrough := by
  cases one with
  | through => trivial
  | every =>
      have overlap : (through first last).text label = "every ".toList ++ (label ++ []) := by
        rwa [List.append_nil]
      exact absurd (plural_mem_of_text_eq (by simp) overlap) (by decide)
  | everyStep step =>
      have overlap : (through first last).text label =
          ("every ".toList ++ (step ++ [' '])) ++ (label ++ "(s)".toList) := by
        simpa using same
      have listed := plural_mem_of_text_eq (by simp) overlap
      simp [noPlural step rfl] at listed
  | list | single =>
      have listed : 's' ∈ "at ".toList := plural_mem_of_text_eq (by simp) same
      exact absurd listed (by decide)

theorem bracket_mem_of_text_eq {first last step : List Char}
    (same : (through first last).text label = (everyStep step).text label) : ')' ∈ last := by
  have closes : (label ++ ("s ".toList ++ (first ++ " through".toList))) ++ (' ' :: last) =
      ("every ".toList ++ (step ++ ' ' :: (label ++ "(s".toList))) ++ [')'] := by
    simpa using same
  rcases List.eq_nil_or_concat last with rfl | ⟨front, c, rfl⟩
  · have ends := List.append_inj_right' closes rfl
    cases ends
  · rw [List.concat_eq_append, ← List.cons_append, ← List.append_assoc] at closes
    cases List.append_inj_right' closes rfl
    simp

/-- A field with neither a plural nor a bracket in it is explained in one form only, whatever the
label is. -/
theorem eq_of_text_eq_of_plain (noPlural : 's' ∉ one.field) (noBracket : ')' ∉ one.field)
    (solid : one.IsThrough → ' ' ∉ one.field) (same : one.text label = other.text label) :
    one = other := by
  refine eq_of_text_eq ⟨fun isThrough => ?_, fun otherThrough => ?_⟩ solid same
  · cases one with
    | through first last =>
        refine isThrough_of_text_eq (fun step isStep _ => ?_) same
        subst isStep
        simp only [field, List.mem_append, List.mem_cons, not_or] at noBracket
        exact noBracket.2.2 (bracket_mem_of_text_eq same)
    | every | everyStep | list | single => cases isThrough
  · cases other with
    | through =>
        refine isThrough_of_text_eq (fun step isStep member => noPlural ?_) same.symm
        simp [isStep, field, member]
    | every | everyStep | list | single => cases otherThrough

/-- A label that begins like none of the other forms tells "through" from them. -/
theorem isThrough_of_text_eq_of_label {c : Char} {rest first last : List Char} (notEvery : c ≠ 'e')
    (notAt : c ≠ 'a') (same : (through first last).text (c :: rest) = one.text (c :: rest)) :
    one.IsThrough := by
  cases one with
  | through => trivial
  | every | everyStep => simp [notEvery] at same
  | list | single => simp [notAt] at same

theorem eq_of_text_eq_of_label {c : Char} {rest : List Char} (notEvery : c ≠ 'e') (notAt : c ≠ 'a')
    (solid : ' ' ∉ one.field) (same : one.text (c :: rest) = other.text (c :: rest)) :
    one = other := by
  refine eq_of_text_eq ⟨fun isThrough => ?_, fun otherThrough => ?_⟩ (fun _ => solid) same
  · cases one with
    | through => exact isThrough_of_text_eq_of_label notEvery notAt same
    | every | everyStep | list | single => cases isThrough
  · cases other with
    | through => exact isThrough_of_text_eq_of_label notEvery notAt same.symm
    | every | everyStep | list | single => cases otherThrough

end Telling

/-! Expressions that are explained -/

theorem Field.plainLabel_opens (field : Field) :
    ∃ c rest, field.plainLabel.toList = c :: rest ∧ c ≠ 'e' ∧ c ≠ 'a' := by
  cases field
  all_goals exact ⟨_, _, rfl, by decide, by decide⟩

open Telling in
theorem explainField_injective {field : Field} {first second : List Char} (solid : ' ' ∉ first)
    (same : explainField first field.plainLabel.toList =
      explainField second field.plainLabel.toList) : first = second := by
  obtain ⟨c, rest, opens, notEvery, notAt⟩ := field.plainLabel_opens
  rw [explainField_eq, explainField_eq, opens] at same
  rw [← field_ofField first] at solid
  exact ofField_injective (eq_of_text_eq_of_label notEvery notAt solid same)

theorem explainFields?_eq_some_iff {expression : List Char} {breakdown : List (Field × List Char)} :
    explainFields? expression = some breakdown ↔ (Text.words expression).length = 5 ∧
      Field.all.zipWith (fun field value => (field, explainField value field.plainLabel.toList))
        (Text.words expression) = breakdown := by
  simp [explainFields?]

/-- Explaining field by field loses nothing: two expressions that are explained are explained alike
exactly if they have the same five words, whatever the words are. -/
theorem explainFields?_eq_iff {first second : List Char}
    (explained : (explainFields? first).isSome) :
    (Text.words first).length = 5 ∧
      (explainFields? second = explainFields? first ↔ Text.words second = Text.words first) := by
  obtain ⟨breakdown, breaksDown⟩ := Option.isSome_iff_exists.mp explained
  obtain ⟨five, ofFirst⟩ := explainFields?_eq_some_iff.mp breaksDown
  refine ⟨five, fun same => ?_, fun same => by rw [explainFields?, same, explainFields?]⟩
  obtain ⟨alsoFive, ofSecond⟩ := explainFields?_eq_some_iff.mp (same.trans breaksDown)
  refine List.ext_getElem (alsoFive.trans five.symm) fun place inSecond inFirst => ?_
  have solid : ' ' ∉ (Text.words second)[place] := by
    intro member
    have isWord := Text.isWord_of_mem_words (List.getElem_mem inSecond)
    exact absurd (isWord.2 ' ' member) (by decide)
  have there : place < Field.all.length := by rwa [five] at inFirst
  have told := congrArg (·[place]?) (ofSecond.trans ofFirst.symm)
  simp only [List.getElem?_zipWith, List.getElem?_eq_getElem inSecond,
    List.getElem?_eq_getElem inFirst, List.getElem?_eq_getElem there, Option.some.injEq,
    Prod.mk.injEq, true_and] at told
  exact explainField_injective solid told

theorem explainFields?_eq_iff_differently_spaced :
    (explainFields? "*/5,7 1-2-3 */ x, every".toList).isSome ∧
      explainFields? "  */5,7\t1-2-3 */  x, every ".toList =
        explainFields? "*/5,7 1-2-3 */ x, every".toList ∧
      explainFields? "*/5,7 1-2-3 */ x, *".toList ≠
        explainFields? "*/5,7 1-2-3 */ x, every".toList := by
  have explained : (explainFields? "*/5,7 1-2-3 */ x, every".toList).isSome := by decide
  exact ⟨explained, (explainFields?_eq_iff explained).2.mpr (by decide),
    (explainFields?_eq_iff explained).2.not.mpr (by decide)⟩

/-! Meanings -/

namespace Telling

/-- What an explanation says about the values of a field. -/
def Means (bounds : Bounds) (values : List Int) : Telling → Prop
  | .every => DenotesValues bounds [.star] values
  | .everyStep step => ∃ n, IsNumeralOf n step ∧ DenotesValues bounds [.starStep n] values
  | .list items =>
      ∃ parts, 2 ≤ parts.length ∧ Lists parts items ∧ DenotesValues bounds parts values
  | .through first last => ∃ least greatest, IsNumeralOf least first ∧ IsNumeralOf greatest last ∧
      DenotesValues bounds [.range least greatest] values
  | .single value => ∃ n : Nat, IsNumeralOf n value ∧ values = [(n : Int)]

theorem ofField_everyStep (step : List Char) : ofField ('*' :: '/' :: step) = .everyStep step := by
  simp [ofField]

theorem ofField_of_comma {value : List Char} (comma : ',' ∈ value)
    (opens : ¬ ['*', '/'] <+: value) : ofField value = .list value := by
  have notStar : value ≠ ['*'] := by
    rintro rfl
    exact absurd comma (by decide)
  simp only [ofField, notStar, if_false, List.isPrefixOf_iff_prefix, opens, List.contains_iff_mem,
    comma, if_true]

theorem ofField_of_no_star {value : List Char} (noStar : '*' ∉ value) (noComma : ',' ∉ value) :
    ofField value = match Text.splitFirst? '-' value with
      | some (first, last) => .through first last
      | none => .single value := by
  have notStar : value ≠ ['*'] := by
    rintro rfl
    exact noStar List.mem_cons_self
  have opens : ¬ ['*', '/'] <+: value := fun opens => noStar (opens.subset List.mem_cons_self)
  simp only [ofField, notStar, if_false, List.isPrefixOf_iff_prefix, opens, List.contains_iff_mem,
    noComma]

theorem ofField_range {first last : List Char} (noStar : '*' ∉ first ++ '-' :: last)
    (noComma : ',' ∉ first ++ '-' :: last) (noHyphen : '-' ∉ first) :
    ofField (first ++ '-' :: last) = .through first last := by
  rw [ofField_of_no_star noStar noComma, Text.splitFirst?_append '-' noHyphen]

theorem ofField_single {value : List Char} (noStar : '*' ∉ value) (noComma : ',' ∉ value)
    (noHyphen : '-' ∉ value) : ofField value = .single value := by
  rw [ofField_of_no_star noStar noComma, Text.splitFirst?_eq_none_iff.mpr noHyphen]

end Telling

/-- Fields with a step that is not told as one: at the front of a list, or behind a range. -/
def HidesStep (value : List Char) : Prop :=
  ',' ∈ value ∧ ['*', '/'] <+: value ∨ ',' ∉ value ∧ '-' ∈ value ∧ '/' ∈ value

variable {bounds : Bounds} {value : List Char} {values : List Int} {part : Part} {parts : List Part}

theorem DenotesValues.eq_singleton {n : Nat} (denotes : DenotesValues bounds [.single n] values) :
    values = [(n : Int)] := by
  refine eq_of_ascending denotes.2.1 (List.pairwise_singleton _ _) fun value => ?_
  rw [denotes.2.2]
  simp [Part.Denotes]

theorem IsNumeralOf.not_mem {n : Nat} (numeral : IsNumeralOf n value) {c : Char}
    (other : Text.isPlainDigit c = false) : c ∉ value :=
  numeral.1.not_mem other

theorem IsNumeralOf.not_mem_range {first last : Nat} {firstText lastText : List Char}
    (writesFirst : IsNumeralOf first firstText) (writesLast : IsNumeralOf last lastText) {c : Char}
    (other : Text.isPlainDigit c = false) (notHyphen : c ≠ '-') :
    c ∉ firstText ++ '-' :: lastText := by
  simp [writesFirst.not_mem other, writesLast.not_mem other, notHyphen]

/-- A part alone is told as what it means unless it is a range with a step. -/
theorem Part.Spells.means_iff (spells : part.Spells value)
    (denotes : DenotesValues bounds [part] values) :
    (Telling.ofField value).Means bounds values ↔ ¬ HidesStep value := by
  have noComma := spells.no_comma
  simp only [HidesStep, noComma, false_and, not_false_eq_true, true_and, false_or]
  cases spells with
  | star => exact iff_of_true denotes (by decide)
  | starStep numeral =>
      rw [Telling.ofField_everyStep]
      refine iff_of_true ⟨_, numeral, denotes⟩ fun ranged => ?_
      simp [numeral.not_mem (c := '-') (by decide)] at ranged
  | range first last =>
      rw [Telling.ofField_range (first.not_mem_range last (by decide) (by decide)) noComma
        (first.not_mem (by decide))]
      exact iff_of_true ⟨_, _, first, last, denotes⟩ fun ranged =>
        first.not_mem_range last (by decide) (by decide) ranged.2
  | rangeStep first last step =>
      rw [List.append_assoc, List.cons_append] at noComma ⊢
      rw [Telling.ofField_range _ noComma (first.not_mem (by decide))]
      · refine iff_of_false ?_ (by simp)
        rintro ⟨_, _, _, numeral, _⟩
        exact numeral.not_mem (c := '/') (by decide) (by simp)
      · simp [first.not_mem (c := '*') (by decide), last.not_mem (c := '*') (by decide),
          step.not_mem (c := '*') (by decide)]
  | single numeral =>
      rw [Telling.ofField_single (numeral.not_mem (by decide)) noComma
        (numeral.not_mem (by decide))]
      exact iff_of_true ⟨_, numeral, denotes.eq_singleton⟩ fun ranged =>
        numeral.not_mem (by decide) ranged.1

/-- A list is told as a list unless it begins with a step. -/
theorem Lists.means_iff (lists : Lists parts value) (denotes : DenotesValues bounds parts values) :
    (Telling.ofField value).Means bounds values ↔ ¬ HidesStep value := by
  by_cases comma : ',' ∈ value
  · simp only [HidesStep, comma, true_and, not_true_eq_false, false_and, or_false]
    have several : 2 ≤ parts.length := by
      cases lists with
      | alone spells => exact absurd comma spells.no_comma
      | several several spell => exact spell.length_eq ▸ several
    by_cases opens : ['*', '/'] <+: value
    · refine iff_of_false ?_ (not_not_intro opens)
      obtain ⟨step, rfl⟩ := opens
      rintro ⟨_, numeral, _⟩
      exact numeral.not_mem (c := ',') (by decide) (by simpa using comma)
    · rw [Telling.ofField_of_comma comma opens]
      exact iff_of_true ⟨parts, several, lists, denotes⟩ opens
  · obtain ⟨part, rfl, spells⟩ := (lists_iff_of_no_comma comma).mp lists
    exact spells.means_iff denotes

theorem Lists.not_mem (lists : Lists parts value) {c : Char} (other : isPartChar c = false)
    (notBlank : Text.isBlank c = false) (notComma : c ≠ ',') : c ∉ value := by
  have apart {part : Part} {text : List Char} (spells : part.Spells text) : c ∉ text := by
    intro member
    rw [spells.partChars c member] at other
    cases other
  intro member
  cases lists with
  | alone spells => exact apart spells member
  | several several spell =>
      obtain ⟨item, listed, inItem⟩ := (Text.mem_of_mem_intercalate member).resolve_left notComma
      obtain ⟨part, _, before, text, behind, rfl, blankBefore, blankBehind, spells⟩ :=
        exists_left_of_forall₂ spell listed
      have noBlank : ¬ Text.isBlank c = true := by simp [notBlank]
      simp only [List.mem_append] at inItem
      rcases inItem with (inBefore | inText) | inBehind
      · exact noBlank (blankBefore c inBefore)
      · exact apart spells inText
      · exact noBlank (blankBehind c inBehind)

theorem Telling.not_comma_of_isThrough {value : List Char} (isThrough : (ofField value).IsThrough) :
    ',' ∉ value := by
  intro comma
  by_cases opens : ['*', '/'] <+: value
  · obtain ⟨step, rfl⟩ := opens
    exact (ofField_everyStep step ▸ isThrough : IsThrough (.everyStep step))
  · rw [ofField_of_comma comma opens] at isThrough
    exact isThrough

/-- A field that the grammar accepts is explained in one form only, and the form says what the values of
the field are unless it hides a step. Lists are told as lists unless they begin with a step. -/
theorem explainField_means (accepted : expandField bounds value = .ok values) (label : List Char) :
    ∃ told : Telling,
      (∀ other : Telling, explainField value label = other.text label ↔ other = told) ∧
      (told.Means bounds values ↔ ¬ HidesStep value) ∧
      (',' ∈ value → (told = .list value ↔ ¬ ['*', '/'] <+: value)) := by
  obtain ⟨_, parts, lists, denotes⟩ := expandField_eq_ok_iff.mp accepted
  refine ⟨Telling.ofField value, fun other => ?_, lists.means_iff denotes, fun comma => ?_⟩
  · rw [Telling.explainField_eq]
    refine ⟨fun same => (Telling.eq_of_text_eq_of_plain ?_ ?_ ?_ same).symm, fun same => same ▸ rfl⟩
    all_goals rw [Telling.field_ofField]
    · exact lists.not_mem (by decide) (by decide) (by decide)
    · exact lists.not_mem (by decide) (by decide) (by decide)
    · intro isThrough blank
      obtain ⟨part, _, spells⟩ :=
        (lists_iff_of_no_comma (Telling.not_comma_of_isThrough isThrough)).mp lists
      exact absurd (spells.solid ' ' blank) (by decide)
  · constructor
    · rintro told ⟨step, rfl⟩
      cases told.symm.trans (Telling.ofField_everyStep step)
    · exact Telling.ofField_of_comma comma

theorem explainField_means_stepBehind :
    expandField Field.minute.bounds "07,*/20".toList = .ok [0, 7, 20, 40] ∧
      explainField "07,*/20".toList "minute".toList = "at minute(s) 07,*/20".toList ∧
      (Telling.list "07,*/20".toList).Means Field.minute.bounds [0, 7, 20, 40] := by
  have accepted : expandField Field.minute.bounds "07,*/20".toList = .ok [0, 7, 20, 40] := by decide
  obtain ⟨told, only, means, listed⟩ := explainField_means accepted "minute".toList
  obtain rfl := (listed (by decide)).mpr (by decide)
  exact ⟨accepted, (only _).mpr rfl, means.mpr (by unfold HidesStep; decide)⟩

/-- Every fifth minute with the tenth is told as every "5,10" minutes, and every second minute of a
range as a range up to "10/2". -/
theorem explainField_hidden_step :
    expandField Field.minute.bounds "*/5,10".toList =
        .ok [0, 5, 10, 15, 20, 25, 30, 35, 40, 45, 50, 55] ∧
      explainField "*/5,10".toList "minute".toList = "every 5,10 minute(s)".toList ∧
      explainField "*/5,10".toList "minute".toList ≠ "at minute(s) */5,10".toList ∧
      expandField Field.minute.bounds "1-10/2".toList = .ok [1, 3, 5, 7, 9] ∧
      explainField "1-10/2".toList "minute".toList = "minutes 1 through 10/2".toList := by
  decide

end Recurrence.Crontab
