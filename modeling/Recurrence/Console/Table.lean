import Recurrence.Text.Segment

namespace Recurrence.Console

/-! Tables drawn with lines. A column is as wide as its widest cell, and cells stand between
single spaces. A table with a header has heavy lines around it. -/

structure Table where
  title : Option (List Char)
  header : Option (List (List Char))
  rows : List (List (List Char))
deriving DecidableEq, Repr

structure Rule where
  left : Char
  dash : Char
  cross : Char
  right : Char

def Rule.draw (rule : Rule) (widths : List Nat) : List Char :=
  let dashes := widths.map fun width => List.replicate (width + 2) rule.dash
  rule.left :: [rule.cross].intercalate dashes ++ [rule.right, '\n']

namespace Table

def lightTop : Rule := ⟨'┌', '─', '┬', '┐'⟩

def heavyTop : Rule := ⟨'┏', '━', '┳', '┓'⟩

def underHeader : Rule := ⟨'┡', '━', '╇', '┩'⟩

def bottom : Rule := ⟨'└', '─', '┴', '┘'⟩

def allRows (table : Table) : List (List (List Char)) :=
  table.header.toList ++ table.rows

/-- The widths of the columns, as many as the longest row has cells. -/
def widths (table : Table) : List Nat :=
  table.allRows.foldl (fun widths row => widen widths (row.map List.length)) []
where
  widen : List Nat → List Nat → List Nat
    | [], others => others
    | widths, [] => widths
    | width :: widths, other :: others => max width other :: widen widths others

def drawRow (bar : Char) (widths : List Nat) (row : List (List Char)) : List Char :=
  bar :: [bar].intercalate (widths.zipWith (fun width cell =>
    ' ' :: cell ++ List.replicate (width - cell.length) ' ' ++ [' ']) row) ++ [bar, '\n']

/-- A title in the middle over the whole width; an odd space goes to the right. -/
def drawTitle (widths : List Nat) (title : List Char) : List Char :=
  let room := widths.foldl (fun room width => room + (width + 3)) 1 - title.length
  List.replicate (room / 2) ' ' ++ title ++ List.replicate (room - room / 2) ' ' ++ ['\n']

def draw (table : Table) : List Char :=
  let widths := table.widths
  let title := (table.title.map (drawTitle widths)).getD []
  let head := match table.header with
    | some header => heavyTop.draw widths ++ drawRow '┃' widths header ++ underHeader.draw widths
    | none => lightTop.draw widths
  title ++ head ++ table.rows.flatMap (drawRow '│' widths) ++ bottom.draw widths

end Table

end Recurrence.Console
