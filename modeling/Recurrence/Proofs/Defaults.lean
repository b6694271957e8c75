import Mathlib.Data.List.Forall2
import Mathlib.Data.List.Nodup
import Mathlib.Data.Rat.Floor
import Recurrence.Defaults
import Recurrence.Proofs.Text.LowerCase
import Recurrence.Proofs.Text.WrittenIntegers

namespace Recurrence

/-! The number of runs that the settings come to. A value that stands for a whole number, by itself, as a
written integer or with its fraction cut off, makes it that number brought into its range, and any other
value makes it the usual one, except for a number without end, with which nothing is made at all. What
is given directly decides alone, whatever the environment says. -/

/-! Numbers without their fractions -/

/-- The whole number that remains of a number when its fraction is cut off. -/
def towardZero (number : ℚ) : Int :=
  if 0 ≤ number then ⌊number⌋ else ⌈number⌉

theorem towardZero_of_nonpos {number : ℚ} (nonpositive : number ≤ 0) :
    towardZero number = ⌈number⌉ := by
  unfold towardZero
  split
  · rename_i nonnegative
    rw [le_antisymm nonpositive nonnegative, Int.floor_zero, Int.ceil_zero]
  · rfl

theorem towardZero_intCast (n : Int) : towardZero n = n := by
  rw [towardZero, Int.floor_intCast, Int.ceil_intCast, ite_self]

theorem towardZero_div (n : Int) (d : Nat) : towardZero (n / d) = n.tdiv d := by
  rcases Int.le_total 0 n with nonnegative | nonpositive
  · have reached : (0 : ℚ) ≤ n / d := div_nonneg (by exact_mod_cast nonnegative) (Nat.cast_nonneg d)
    rw [towardZero, if_pos reached, Rat.floor_intCast_div_natCast,
      Int.tdiv_eq_ediv_of_nonneg nonnegative]
  · -- Division rounds down, so it is the opposite number that is divided.
    have below : (n / d : ℚ) ≤ 0 :=
      div_nonpos_of_nonpos_of_nonneg (by exact_mod_cast nonpositive) (Nat.cast_nonneg d)
    have opposite : -(n / d : ℚ) = ((-n : Int) : ℚ) / d := by rw [Int.cast_neg, neg_div]
    calc towardZero (n / d)
        = ⌈(n / d : ℚ)⌉ := towardZero_of_nonpos below
      _ = -⌊-(n / d : ℚ)⌋ := by rw [Int.floor_neg, neg_neg]
      _ = -(-n / d) := by rw [opposite, Rat.floor_intCast_div_natCast]
      _ = -(-n).tdiv d := by
        rw [Int.tdiv_eq_ediv_of_nonneg (Int.neg_nonneg_of_nonpos nonpositive)]
      _ = n.tdiv d := by rw [Int.neg_tdiv, Int.neg_neg]

theorem wholePart_eq (significand exponent : Int) :
    wholePart significand exponent = towardZero (significand * 2 ^ exponent) := by
  unfold wholePart
  split
  · rename_i nonnegative
    obtain ⟨places, rfl⟩ := Int.eq_ofNat_of_zero_le nonnegative
    have whole : (significand * 2 ^ (places : Int) : ℚ) =
        (significand * Nat.pow 2 places : Int) := by
      simp
    rw [whole, towardZero_intCast, Int.toNat_natCast]
  · rename_i negative
    obtain ⟨places, cut⟩ : ∃ places : Nat, -exponent = places :=
      Int.eq_ofNat_of_zero_le (by omega)
    have divided : (significand * 2 ^ exponent : ℚ) = significand / (Nat.pow 2 places : Nat) := by
      rw [← neg_neg exponent, cut]
      simp [div_eq_mul_inv]
    rw [divided, towardZero_div, cut, Int.toNat_natCast]

/-! Values that are given -/

/-- The whole numbers that values stand for. Some values stand for none: texts that write no integer,
numbers that are not finite, and what is no single value. -/
inductive Given.StandsFor : Given → Int → Prop
  | text {text : List Char} {n : Int} (writes : Text.WritesInteger text n) : StandsFor (.text text) n
  | whole (n : Int) : StandsFor (.whole n) n
  | binary (significand exponent : Int) :
      StandsFor (.binary (.finite significand exponent)) (towardZero (significand * 2 ^ exponent))
  | truth (value : Bool) : StandsFor (.truth value) (if value then 1 else 0)

namespace Defaults

variable {environment other : List (List Char × List Char)} {given : List (List Char × Given)}
  {setting text : List Char} {value : Given}

theorem exists_wholeNumber? (finite : value ≠ .binary .infinite) :
    ∃ found, wholeNumber? value = .ok found ∧ ∀ n, found = some n ↔ value.StandsFor n := by
  have same {value : Given} {m : Int} (known : ∀ n, value.StandsFor n ↔ m = n) :
      ∀ n, some m = some n ↔ value.StandsFor n := fun n => by rw [Option.some.injEq, known]
  cases value with
  | text text =>
      refine ⟨_, rfl, fun n => Text.readInteger?_eq_some_iff.trans ⟨.text, fun stands => ?_⟩⟩
      cases stands
      assumption
  | whole n =>
      refine ⟨_, rfl, same fun m => ⟨fun stands => ?_, fun equal => equal ▸ .whole n⟩⟩
      cases stands
      rfl
  | binary number =>
      cases number with
      | finite significand exponent =>
          refine ⟨_, rfl, same fun m => ?_⟩
          rw [wholePart_eq]
          refine ⟨fun stands => ?_, fun equal => equal ▸ .binary significand exponent⟩
          cases stands
          rfl
      | infinite => exact absurd rfl finite
      | notANumber => exact ⟨none, rfl, fun n => iff_of_false nofun nofun⟩
  | truth value =>
      refine ⟨_, rfl, same fun m => ⟨fun stands => ?_, fun equal => equal ▸ .truth value⟩⟩
      cases stands
      rfl
  | other => exact ⟨none, rfl, fun n => iff_of_false nofun nofun⟩

/-- The number of runs that a value comes to. -/
structure Settles (value : Given) (runs : Nat) : Prop where
  clamped : ∀ n, value.StandsFor n → (runs : Int) = min (max n 1) 50
  usual : (∀ n, ¬ value.StandsFor n) → runs = 5

theorem runs_within (format : Crontab.Format) (n : Int) :
    ((within format n).runs : Int) = min (max n 1) 50 := by
  simp only [within, leastRuns, mostRuns]
  omega

theorem settles_of_wholeNumber? {found : Option Int} (format : Crontab.Format)
    (finds : ∀ n, found = some n ↔ value.StandsFor n) :
    Settles value (within format (found.getD usualRuns)).runs where
  clamped := by
    intro n stands
    rw [(finds n).mpr stands, Option.getD_some, runs_within]
  usual := by
    intro none
    have nothing : found = Option.none := by
      cases found with
      | none => rfl
      | some n => exact absurd ((finds n).mp rfl) (none n)
    rw [nothing, Option.getD_none]
    rfl

/-! Variables -/

/-- The name of a variable for a setting, in letters of any case. -/
def IsVariableOf (setting name : List Char) : Prop :=
  Text.lower name = variablePrefix ++ setting

instance (setting name : List Char) : Decidable (IsVariableOf setting name) :=
  inferInstanceAs (Decidable (_ = _))

/-- The text of the last variable for a setting. -/
def LastSets (environment : List (List Char × List Char)) (setting text : List Char) : Prop :=
  ∃ before name behind, environment = before ++ (name, text) :: behind ∧ IsVariableOf setting name ∧
    ∀ entry ∈ behind, ¬ IsVariableOf setting entry.1

theorem fromEnvironment?_eq_some_iff :
    fromEnvironment? environment setting = some text ↔ LastSets environment setting text := by
  unfold fromEnvironment? LastSets
  rw [Option.map_eq_some_iff]
  constructor
  · intro told
    obtain ⟨⟨name, text⟩, found, rfl⟩ := told
    -- The search goes from behind, so the first that it finds is the last there is.
    obtain ⟨named, behind, before, cut, others⟩ := List.find?_eq_some_iff_append.mp found
    refine ⟨before.reverse, name, behind.reverse, ?_, of_decide_eq_true named, fun entry member => ?_⟩
    · rw [← List.reverse_reverse environment, cut]
      simp
    · simpa [IsVariableOf] using others entry (List.mem_reverse.mp member)
  · intro last
    obtain ⟨before, name, behind, rfl, named, others⟩ := last
    refine ⟨(name, text), List.find?_eq_some_iff_append.mpr ⟨decide_eq_true named, ?_⟩, rfl⟩
    refine ⟨behind.reverse, before.reverse, by simp, fun entry member => ?_⟩
    simpa [IsVariableOf] using others entry (List.mem_reverse.mp member)

theorem fromEnvironment?_eq_none_iff :
    fromEnvironment? environment setting = none ↔ ∀ text, ¬ LastSets environment setting text := by
  simp only [Option.eq_none_iff_forall_ne_some, ne_eq, fromEnvironment?_eq_some_iff]

/-- The variables that say nothing about the number of runs. -/
def withoutRuns (environment : List (List Char × List Char)) : List (List Char × List Char) :=
  environment.filter fun entry => ¬ IsVariableOf runsName entry.1

theorem fromEnvironment?_withoutRuns (environment : List (List Char × List Char)) :
    fromEnvironment? (withoutRuns environment) formatName =
      fromEnvironment? environment formatName := by
  have apart (name : List Char) (named : IsVariableOf formatName name) :
      ¬ IsVariableOf runsName name := by
    intro also
    exact absurd (List.append_cancel_left (named.symm.trans also)) (by decide)
  unfold fromEnvironment? withoutRuns
  rw [← List.filter_reverse, List.find?_filter]
  congr 2
  funext entry
  by_cases named : IsVariableOf formatName entry.1
  · simp [apart entry.1 named]
  · have unnamed : ¬ Text.lower entry.1 = variablePrefix ++ formatName := named
    simp [unnamed]

/-- Some of the small letters may be written as capitals. -/
def IsInAnyCase (smalls name : List Char) : Prop :=
  List.Forall₂ (fun c small => c = small ∨ c = small.toUpper) name smalls

theorem isVariableOf_of_isInAnyCase {name : List Char}
    (anyCase : IsInAnyCase (variablePrefix ++ runsName) name) : IsVariableOf runsName name := by
  have letters : (variablePrefix ++ runsName).all
      (fun small => Text.lowersTo small small && Text.lowersTo small.toUpper small) = true := by
    decide +kernel
  -- What is checked of every letter of the name goes along with the way it is written.
  have written := (List.forall₂_and_left _ _).mpr ⟨List.all_eq_true.mp letters, anyCase.flip⟩
  refine Text.lower_of_forall₂ (List.Forall₂.flip (written.imp fun small c written => ?_))
  obtain ⟨both, rfl | rfl⟩ := written
  · exact (Bool.and_eq_true_iff.mp both).1
  · exact (Bool.and_eq_true_iff.mp both).2

/-! Values and variables together -/

/-- What is given, apart from the number of runs, makes sense: it is given for settings, once for each,
and a layout by a text. -/
structure Sensible (given : List (List Char × Given)) : Prop where
  known : ∀ entry ∈ given, entry.1 = formatName ∨ entry.1 = runsName
  distinct : (given.map Prod.fst).Nodup
  layout : ∀ value, (formatName, value) ∈ given → ∃ text, value = .text text

theorem value?_of_mem (environment : List (List Char × List Char))
    (distinct : (given.map Prod.fst).Nodup) (member : (setting, value) ∈ given) :
    value? environment given setting = some value := by
  unfold value?
  split
  · rename_i entry found
    have named : entry.1 = setting := by simpa using List.find?_some found
    have same : entry = (setting, value) :=
      List.inj_on_of_nodup_map distinct (List.mem_of_find?_eq_some found) member named
    rw [same]
  · rename_i found
    exact absurd (decide_eq_true rfl) (List.find?_eq_none.mp found _ member)

theorem value?_of_not_mem (environment : List (List Char × List Char))
    (absent : ∀ value, (setting, value) ∉ given) :
    value? environment given setting = (fromEnvironment? environment setting).map .text := by
  unfold value?
  split
  · rename_i entry found
    have named : entry.1 = setting := by simpa using List.find?_some found
    exact absurd (named ▸ List.mem_of_find?_eq_some found) (absent entry.2)
  · rfl

/-- The layout that comes from a value, or else the usual one. -/
def layoutOf (value : Option Given) : Except Refusal Crontab.Format :=
  value.elim (.ok .five) formatOf

theorem load_eq (environment : List (List Char × List Char)) (given : List (List Char × Given)) :
    load environment given =
      ((value? environment given runsName).elim (.ok none) wholeNumber?).bind fun found =>
        (layoutOf (value? environment given formatName)).bind fun format =>
          if given.all fun entry => entry.1 = formatName || entry.1 = runsName then
            .ok (within format (found.getD usualRuns))
          else .error .invalid := by
  unfold load layoutOf
  cases value? environment given runsName <;> cases value? environment given formatName <;> rfl

/-- What is given sensibly is never refused for its layout. -/
theorem exists_layout (sensible : Sensible given) (environment : List (List Char × List Char)) :
    ∃ format, layoutOf (value? environment given formatName) = .ok format := by
  by_cases isGiven : ∃ value, (formatName, value) ∈ given
  · obtain ⟨value, member⟩ := isGiven
    obtain ⟨text, rfl⟩ := sensible.layout value member
    rw [value?_of_mem environment sensible.distinct member]
    exact ⟨_, rfl⟩
  · rw [value?_of_not_mem environment (not_exists.mp isGiven)]
    cases fromEnvironment? environment formatName with
    | none => exact ⟨_, rfl⟩
    | some text => exact ⟨_, rfl⟩

/-- Only the number of runs can be in the way of what is given sensibly. -/
theorem exists_load (sensible : Sensible given) (environment : List (List Char × List Char)) :
    ∃ format, load environment given =
      ((value? environment given runsName).elim (.ok none) wholeNumber?).map fun found =>
        within format (found.getD usualRuns) := by
  obtain ⟨format, layout⟩ := exists_layout sensible environment
  have known : given.all (fun entry => entry.1 = formatName || entry.1 = runsName) = true := by
    simpa using sensible.known
  refine ⟨format, ?_⟩
  rw [load_eq, layout]
  cases (value? environment given runsName).elim (.ok none) wholeNumber? with
  | ok found => exact if_pos known
  | error refusal => rfl

theorem load_congr_withoutRuns (isGiven : (runsName, value) ∈ given)
    (distinct : (given.map Prod.fst).Nodup) (same : withoutRuns other = withoutRuns environment) :
    load other given = load environment given := by
  have layouts : value? other given formatName = value? environment given formatName := by
    unfold value?
    rw [← fromEnvironment?_withoutRuns other, same, fromEnvironment?_withoutRuns]
  rw [load_eq, load_eq, layouts, value?_of_mem other distinct isGiven,
    value?_of_mem environment distinct isGiven]

/-- Where nothing is given, nothing is refused. -/
theorem load_nil (environment : List (List Char × List Char)) :
    load environment [] = .ok (ofEnvironment environment) := by
  rw [load_eq]
  unfold ofEnvironment
  cases runs : fromEnvironment? environment runsName <;>
    cases format : fromEnvironment? environment formatName <;>
    simp [value?, runs, format, layoutOf, Except.bind, wholeNumber?, formatOf]

/-- A value for the number of runs that has an end makes the settings, with the number that it settles. -/
theorem exists_load_of_value (sensible : Sensible given)
    (decides : value? environment given runsName = some value) (finite : value ≠ .binary .infinite) :
    ∃ defaults, load environment given = .ok defaults ∧ Settles value defaults.runs := by
  obtain ⟨format, loaded⟩ := exists_load sensible environment
  obtain ⟨found, read, finds⟩ := exists_wholeNumber? finite
  rw [loaded, decides, Option.elim_some, read]
  exact ⟨_, rfl, settles_of_wholeNumber? format finds⟩

/-- Where no number of runs is given, the last variable for it decides. -/
theorem exists_load_of_not_mem (sensible : Sensible given)
    (absent : ∀ value, (runsName, value) ∉ given) (environment : List (List Char × List Char)) :
    ∃ defaults, load environment given = .ok defaults ∧
      (∀ text, LastSets environment runsName text → Settles (.text text) defaults.runs) ∧
      ((∀ text, ¬ LastSets environment runsName text) → defaults.runs = 5) := by
  have decides := value?_of_not_mem environment absent
  cases found : fromEnvironment? environment runsName with
  | some text =>
      rw [found] at decides
      obtain ⟨defaults, loaded, settles⟩ := exists_load_of_value sensible decides nofun
      refine ⟨defaults, loaded, fun text' last => ?_, fun unset => ?_⟩
      · obtain rfl : text = text' :=
          Option.some.inj (found.symm.trans (fromEnvironment?_eq_some_iff.mpr last))
        exact settles
      · exact absurd (fromEnvironment?_eq_some_iff.mp found) (unset text)
  | none =>
      obtain ⟨format, loaded⟩ := exists_load sensible environment
      rw [decides, found] at loaded
      exact ⟨_, loaded, fun text last => absurd last (fromEnvironment?_eq_none_iff.mp found text),
        fun _ => rfl⟩

/-- The number of runs is settled by what is given, or else by the last variable for it, in letters of any
case. The settings fail to be made only with an endless number that is given. -/
theorem load_settlesRuns (sensible : Sensible given) (environment : List (List Char × List Char)) :
    (∀ value, (runsName, value) ∈ given →
      (value ≠ .binary .infinite → ∃ defaults, load environment given = .ok defaults ∧
        1 ≤ defaults.runs ∧ defaults.runs ≤ 50 ∧ Settles value defaults.runs) ∧
      (value = .binary .infinite → load environment given = .error .endless) ∧
      ∀ other, withoutRuns other = withoutRuns environment →
        load other given = load environment given) ∧
    ((∀ value, (runsName, value) ∉ given) →
      ∃ defaults, load environment given = .ok defaults ∧ 1 ≤ defaults.runs ∧ defaults.runs ≤ 50 ∧
        (∀ text, LastSets environment runsName text → Settles (.text text) defaults.runs) ∧
        ((∀ text, ¬ LastSets environment runsName text) → defaults.runs = 5)) ∧
    (∀ name, IsInAnyCase (variablePrefix ++ runsName) name → IsVariableOf runsName name) ∧
    load environment [] = .ok (ofEnvironment environment) := by
  refine ⟨fun value isGiven => ⟨fun finite => ?_, ?_, fun other => ?_⟩, fun absent => ?_,
    fun name => isVariableOf_of_isInAnyCase, load_nil environment⟩
  · have decides := value?_of_mem environment sensible.distinct isGiven
    obtain ⟨defaults, loaded, settles⟩ := exists_load_of_value sensible decides finite
    exact ⟨defaults, loaded, defaults.leastRuns_le, defaults.runs_le, settles⟩
  · intro endless
    subst endless
    obtain ⟨format, loaded⟩ := exists_load sensible environment
    rw [loaded, value?_of_mem environment sensible.distinct isGiven]
    rfl
  · exact load_congr_withoutRuns isGiven sensible.distinct
  · obtain ⟨defaults, loaded, settled⟩ := exists_load_of_not_mem sensible absent environment
    exact ⟨defaults, loaded, defaults.leastRuns_le, defaults.runs_le, settled⟩

/-- A number with a fraction that is given beside a layout against a variable, and a variable in capitals
behind another one, with digits of two scripts. -/
theorem load_settlesRuns_fraction :
    (∃ defaults, load [("CronSpeak_Count".toList, "7".toList)]
        [(formatName, .text "weekly".toList), (runsName, .binary (.finite 95 (-2)))] = .ok defaults ∧
      defaults.runs = 23) ∧
    ∃ defaults, load [("CRONSPEAK_COUNT".toList, " +1_٢\n".toList), ("cronspeak_format".toList, [])] [] =
        .ok defaults ∧ defaults.runs = 12 := by
  have sensible : Sensible [(formatName, .text "weekly".toList), (runsName, .binary (.finite 95 (-2)))] :=
    ⟨by decide, by decide, fun value member =>
      ⟨"weekly".toList, by simpa [formatName, runsName] using member⟩⟩
  have nothing : Sensible [] := ⟨nofun, .nil, nofun⟩
  constructor
  · obtain ⟨defaults, loaded, _, _, settles⟩ :=
      ((load_settlesRuns sensible [("CronSpeak_Count".toList, "7".toList)]).1 _
        (List.mem_cons_of_mem _ List.mem_cons_self)).1 (by decide)
    refine ⟨defaults, loaded, ?_⟩
    have cut : towardZero ((95 : Int) * 2 ^ (-2 : Int)) = 23 := (wholePart_eq 95 (-2)).symm
    have clamped := settles.clamped 23 (cut ▸ .binary 95 (-2))
    omega
  · obtain ⟨defaults, loaded, _, _, settles, _⟩ := (load_settlesRuns nothing
      [("CRONSPEAK_COUNT".toList, " +1_٢\n".toList), ("cronspeak_format".toList, [])]).2.1 nofun
    refine ⟨defaults, loaded, ?_⟩
    have last : LastSets [("CRONSPEAK_COUNT".toList, " +1_٢\n".toList), ("cronspeak_format".toList, [])]
        runsName " +1_٢\n".toList :=
      fromEnvironment?_eq_some_iff.mp (by decide +kernel)
    have writes : Text.WritesInteger " +1_٢\n".toList 12 :=
      Text.readInteger?_eq_some_iff.mp (by decide +kernel)
    have clamped := (settles _ last).clamped 12 (.text writes)
    omega

/-- A number without end has no whole part, and the usual number of runs does not stand in for it. -/
theorem load_endlessRuns :
    load [] [(runsName, .binary .infinite)] = .error .endless ∧
      (∀ n, ¬ Given.StandsFor (.binary .infinite) n) :=
  ⟨rfl, nofun⟩

end Defaults

end Recurrence
