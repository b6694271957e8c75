namespace Recurrence.Text

/-! Character classes as data. A class is an ascending list of closed ranges of
code points, so that membership can stop at the first range beyond the point. -/

abbrev CodeRange := Nat × Nat

def inRanges : List CodeRange → Nat → Bool
  | [], _ => false
  | (first, last) :: rest, code =>
      if code < first then false
      else if code ≤ last then true
      else inRanges rest code

end Recurrence.Text
