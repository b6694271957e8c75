import Recurrence.Text.Blank
import Recurrence.Text.WordChar

namespace Recurrence

/-! Phrase patterns. A pattern is data; `Pattern.ways` lists every way of reading it
at a place in a text, the preferred one first. Everything else about patterns is
defined through that list: reading a whole text, and searching inside one. -/

inductive CharSet where
  | exactly (c : Char)
  /-- A small letter of the ASCII alphabet or its capital. -/
  | eitherCase (c : Char)
  | digit
  | blank
  | wordChar
  | union (left right : CharSet)
deriving DecidableEq, Repr

def CharSet.contains : CharSet → Char → Bool
  | .exactly c, x => x == c
  | .eitherCase c, x => x == c || x == c.toUpper
  | .digit, x => Text.isDigit x
  | .blank, x => Text.isBlank x
  | .wordChar, x => Text.isWordChar x
  | .union left right, x => left.contains x || right.contains x

/-- Patterns whose parts may be captured in slots of type `σ`. -/
inductive Pattern (σ : Type) where
  | empty
  | one (set : CharSet)
  | seq (first second : Pattern σ)
  /-- Either pattern, the first one preferred. -/
  | either (preferred other : Pattern σ)
  /-- Repetitions, as many as possible preferred, though not more than characters are left. -/
  | many (body : Pattern σ)
  | capture (slot : σ) (body : Pattern σ)
  /-- A place where a word begins or ends. -/
  | wordEdge
  /-- A place that no character of the set follows. -/
  | notAhead (set : CharSet)
deriving Repr

/-- A place in a text: the character before it and the text behind it. -/
structure Cursor where
  before : Option Char
  rest : List Char
deriving DecidableEq, Repr

namespace Cursor

def start (text : List Char) : Cursor := ⟨none, text⟩

def upTo (place later : Cursor) : List Char :=
  place.rest.take (place.rest.length - later.rest.length)

def atWordEdge (place : Cursor) : Bool :=
  place.before.any Text.isWordChar != place.rest.head?.any Text.isWordChar

end Cursor

/-- The parts that a reading captured, each with the places where it starts and ends. -/
abbrev Captures (σ : Type) := List (σ × Cursor × Cursor)

namespace Captures

variable {σ : Type} [DecidableEq σ]

def text? (captures : Captures σ) (slot : σ) : Option (List Char) :=
  (captures.find? (·.1 = slot)).map fun (_, start, stop) => start.upTo stop

def text (captures : Captures σ) (slot : σ) : List Char :=
  (captures.text? slot).getD []

end Captures

/-- One way of reading a pattern: what it captures and where it ends. -/
abbrev Way (σ : Type) := Captures σ × Cursor

namespace Pattern

variable {σ : Type}

/-- Repetitions of `step`, more of them first, and at most one for each of some characters. -/
def repeated (step : Cursor → List (Way σ)) : List Char → Cursor → List (Way σ)
  | [], place => [([], place)]
  | _ :: others, place =>
      let more := (step place).flatMap fun way =>
        (repeated step others way.2).map fun further => (way.1 ++ further.1, further.2)
      more ++ [([], place)]

def ways : Pattern σ → Cursor → List (Way σ)
  | .empty, place => [([], place)]
  | .one set, place =>
      match place.rest with
      | [] => []
      | c :: rest => if set.contains c then [([], ⟨some c, rest⟩)] else []
  | .seq first second, place =>
      (first.ways place).flatMap fun way =>
        (second.ways way.2).map fun further => (way.1 ++ further.1, further.2)
  | .either preferred other, place => preferred.ways place ++ other.ways place
  | .many body, place => repeated (fun inner => body.ways inner) place.rest place
  | .capture slot body, place =>
      (body.ways place).map fun way => ((slot, place, way.2) :: way.1, way.2)
  | .wordEdge, place => if place.atWordEdge then [([], place)] else []
  | .notAhead set, place => if place.rest.head?.any set.contains then [] else [([], place)]

/-- The preferred way of reading a text from its start to its very end. -/
def whole? (pattern : Pattern σ) (text : List Char) : Option (Captures σ) :=
  ((pattern.ways (.start text)).find? (·.2.rest.isEmpty)).map (·.1)

structure Occurrence (σ : Type) where
  start : Cursor
  captures : Captures σ
  stop : Cursor

def Occurrence.text (found : Occurrence σ) : List Char :=
  found.start.upTo found.stop

def readAt? (pattern : Pattern σ) (place : Cursor) : Option (Occurrence σ) :=
  (pattern.ways place).head?.map fun way => ⟨place, way.1, way.2⟩

def occurrencesFrom (pattern : Pattern σ) : Nat → Option Char → List Char → List (Occurrence σ)
  | _, before, [] => (pattern.readAt? ⟨before, []⟩).toList
  | covered + 1, _, c :: rest => occurrencesFrom pattern covered (some c) rest
  | 0, before, c :: rest =>
      match pattern.readAt? ⟨before, c :: rest⟩ with
      | some found => found :: occurrencesFrom pattern (found.text.length - 1) (some c) rest
      | none => occurrencesFrom pattern 0 (some c) rest

/-- The readings found inside a text from left to right. None overlaps the one before it. -/
def occurrences (pattern : Pattern σ) (text : List Char) : List (Occurrence σ) :=
  occurrencesFrom pattern 0 none text

def occurs (pattern : Pattern σ) (text : List Char) : Bool :=
  !(pattern.occurrences text).isEmpty

/-! Patterns put together from smaller ones. -/

def literal : List Char → Pattern σ
  | [] => .empty
  | [c] => .one (.exactly c)
  | c :: rest => .seq (.one (.exactly c)) (literal rest)

def word (text : String) : Pattern σ := literal text.toList

def wordEitherCase (text : String) : Pattern σ :=
  text.toList.foldr (fun c rest => .seq (.one (.eitherCase c)) rest) .empty

def inOrder : List (Pattern σ) → Pattern σ
  | [] => .empty
  | [pattern] => pattern
  | pattern :: others => .seq pattern (inOrder others)

/-- Any of the patterns, earlier ones preferred. -/
def anyOf : List (Pattern σ) → Pattern σ
  | [] => .empty
  | [pattern] => pattern
  | pattern :: others => .either pattern (anyOf others)

def optional (pattern : Pattern σ) : Pattern σ := .either pattern .empty

def oneOrMore (pattern : Pattern σ) : Pattern σ := .seq pattern (.many pattern)

def blanks : Pattern σ := .many (.one .blank)

def digit : Pattern σ := .one .digit

def digits : Pattern σ := oneOrMore digit

def shortNumber : Pattern σ := .seq digit (optional digit)

end Pattern

instance {σ : Type} : Coe String (Pattern σ) := ⟨Pattern.word⟩

end Recurrence
