namespace Recurrence.Console

/-! How texts from outside are shown on a terminal. Brackets may open a style tag, for
which a backslash stands in the way; so a backslash right before a bracket is dropped unless
the bracket really opens one. Characters that would move the cursor are left out, and tabs
are filled up with spaces to the next eighth column. -/

def startsTag (c : Char) : Bool :=
  'a' ≤ c && c ≤ 'z' || c == '#' || c == '/' || c == '@'

def opensTag : List Char → Bool
  | [] => false
  | c :: rest => startsTag c && (rest.takeWhile (· ≠ '[')).contains ']'

def dropBracketEscapes : List Char → List Char
  | [] => []
  | [c] => [c]
  | c :: next :: rest =>
      if c == '\\' && next == '[' && !opensTag rest then dropBracketEscapes (next :: rest)
      else c :: dropBracketEscapes (next :: rest)

/-- Bell, backspace, vertical tab, form feed and carriage return. -/
def movesCursor (c : Char) : Bool :=
  [7, 8, 11, 12, 13].contains c.toNat

def tabWidth : Nat := 8

/-- Fills up tabs, from a column on. -/
def expandTabs : Nat → List Char → List Char
  | _, [] => []
  | column, c :: rest =>
      if c == '\t' then
        let width := tabWidth - column % tabWidth
        List.replicate width ' ' ++ expandTabs (column + width) rest
      else if c == '\n' then c :: expandTabs 0 rest
      else c :: expandTabs (column + 1) rest

def labelled (label : String) (text : List Char) : List Char :=
  expandTabs 0 (label.toList ++ (dropBracketEscapes text).filter (!movesCursor ·)) ++ ['\n']

def line (text : List Char) : List Char :=
  text ++ ['\n']

end Recurrence.Console
