import Recurrence.Text.Quoted

namespace Recurrence

/-! What reading a phrase comes to: a schedule or a complaint, with the confidence
that the schedule is meant. An approximate schedule may carry a warning about what it
does not capture; an exact one never does. -/

inductive Confidence where
  | high | medium | low
deriving DecidableEq, Repr

namespace Confidence

def text : Confidence → String
  | .high => "high"
  | .medium => "medium"
  | .low => "low"

def ofText? (text : List Char) : Option Confidence :=
  [high, medium, low].find? (·.text.toList == text)

end Confidence

structure Reading where
  /-- The complaint, or the schedule. -/
  outcome : Except (List Char) (List Char)
  confidence : Confidence
  approximate : Bool
  warning : Option (List Char)
  interpretation : Option (List Char)
  approximate_of_warning : warning.isSome → approximate = true

namespace Reading

def success (schedule interpretation : List Char) (confidence : Confidence) : Reading where
  outcome := .ok schedule
  confidence := confidence
  approximate := false
  warning := none
  interpretation := some interpretation
  approximate_of_warning := by simp

def approximation (schedule warning interpretation : List Char) (confidence : Confidence) :
    Reading where
  outcome := .ok schedule
  confidence := confidence
  approximate := true
  warning := some warning
  interpretation := some interpretation
  approximate_of_warning := by simp

def failure (complaint : List Char) : Reading where
  outcome := .error complaint
  confidence := .low
  approximate := false
  warning := none
  interpretation := none
  approximate_of_warning := by simp

def schedule? (reading : Reading) : Option (List Char) :=
  reading.outcome.toOption

def complaint? (reading : Reading) : Option (List Char) :=
  match reading.outcome with
  | .error complaint => some complaint
  | .ok _ => none

def succeeded (reading : Reading) : Bool :=
  reading.schedule?.isSome

/-- The same reading with a leading field for the seconds, which is always zero. -/
def withSeconds (reading : Reading) : Reading :=
  { reading with outcome := reading.outcome.map ("0 ".toList ++ ·) }

inductive Misfit where
  | bothOrNeither
  | warningOfExact
deriving DecidableEq, Repr

def Misfit.message : Misfit → String
  | .bothOrNeither => "ParseResult needs exactly one of cron or error"
  | .warningOfExact => "Only approximate results carry a warning"

def assemble (schedule complaint : Option (List Char)) (confidence : Confidence)
    (approximate : Bool) (warning interpretation : Option (List Char)) : Except Misfit Reading :=
  let build (outcome : Except (List Char) (List Char)) : Except Misfit Reading :=
    if agrees : warning.isSome → approximate = true then
      .ok ⟨outcome, confidence, approximate, warning, interpretation, agrees⟩
    else .error .warningOfExact
  match schedule, complaint with
  | some schedule, none => build (.ok schedule)
  | none, some complaint => build (.error complaint)
  | _, _ => .error .bothOrNeither

end Reading

end Recurrence
