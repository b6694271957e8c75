import Recurrence.Text.Blank
import Recurrence.Text.WordChar

namespace Recurrence.Mention

/-! The tokens of a text in which a date or a time may be mentioned: runs of letters,
runs of digits, and every other character on its own. A run may go on across points, and
a number across commas. Unless it turns out to be a single decimal number, such a run is
cut into pieces at these marks when it ends. -/

abbrev Token := List Char

/-- What the latest characters of an unfinished run are. -/
inductive Course where
  | letters
  | digits
  | dottedLetters
  | dottedDigits
deriving DecidableEq, Repr

def Course.inLetters : Course → Bool
  | .letters | .dottedLetters => true
  | .digits | .dottedDigits => false

def Course.dotted : Course → Bool
  | .dottedLetters | .dottedDigits => true
  | .letters | .digits => false

structure Run where
  /-- The latest character. -/
  last : Char
  /-- The characters before it, the latest of them first. -/
  earlier : List Char
  course : Course
  /-- Whether any character was met behind a letter. -/
  lettered : Bool

namespace Run

def chars (run : Run) : List Char :=
  (run.last :: run.earlier).reverse

/-- How a run goes on with a character, if it does. A comma may only follow two digits. -/
def continued? (run : Run) (c : Char) : Option Course :=
  match run.course with
  | .letters =>
      if Text.isLetter c then some .letters
      else if c == '.' then some .dottedLetters
      else none
  | .digits =>
      if Text.isDigitSign c then some .digits
      else if c == '.' || c == ',' && !run.earlier.isEmpty then some .dottedDigits
      else none
  | .dottedLetters =>
      if c == '.' || Text.isLetter c then some .dottedLetters
      else if Text.isDigitSign c && run.last == '.' then some .dottedDigits
      else none
  | .dottedDigits =>
      if c == '.' || Text.isDigitSign c then some .dottedDigits
      else if Text.isLetter c && run.last == '.' then some .dottedLetters
      else none

def meeting (run : Run) : Run :=
  { run with lettered := run.lettered || run.course.inLetters }

def extend? (run : Run) (c : Char) : Option Run :=
  (run.continued? c).map fun course =>
    ⟨c, run.last :: run.earlier, course, run.meeting.lettered⟩

end Run

def isMark (c : Char) : Bool :=
  c == '.' || c == ','

/-- The pieces between points and commas, which are pieces themselves. -/
def cutAtMarks : List Char → List Token
  | [] => []
  | [c] => [[c]]
  | c :: next :: rest =>
      if isMark c || isMark next then [c] :: cutAtMarks (next :: rest)
      else match cutAtMarks (next :: rest) with
        | piece :: others => (c :: piece) :: others
        | [] => [[c]]

/-- The tokens of a run that ends. A comma in a decimal number stands for its point. -/
def Run.tokens (run : Run) : List Token :=
  let chars := run.chars
  if run.course.dotted && (run.lettered || 1 < chars.count '.' || isMark run.last) then
    cutAtMarks chars
  else if run.course = .dottedDigits ∧ !chars.contains '.' then
    [chars.map fun c => if c == ',' then '.' else c]
  else [chars]

def opening (c : Char) : List Token × Option Run :=
  if Text.isLetter c then ([], some ⟨c, [], .letters, false⟩)
  else if Text.isDigitSign c then ([], some ⟨c, [], .digits, false⟩)
  else if Text.isBlank c then ([[' ']], none)
  else ([[c]], none)

def tokensFrom : Option Run → List Char → List Token
  | none, [] => []
  | some run, [] => run.tokens
  | none, c :: rest =>
      let (single, next) := opening c
      single ++ tokensFrom next rest
  | some run, c :: rest =>
      match run.extend? c with
      | some longer => tokensFrom (some longer) rest
      | none =>
          let (single, next) := opening c
          run.meeting.tokens ++ single ++ tokensFrom next rest

/-- The tokens of a text. The null character counts for nothing. -/
def tokens (text : List Char) : List Token :=
  tokensFrom none (text.filter (· ≠ '\x00'))

end Recurrence.Mention
