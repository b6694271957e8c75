import Recurrence.Console.Table
import Recurrence.Proofs.Text.Cutting
import Recurrence.Proofs.Text.Words

namespace Recurrence.Console.Table

/-! Reading tables back. A drawing shows all rows of its table, cell by cell, as long as no text in
the table looks like a part of the frame. -/

/-- The cells in a line between light bars, without the blanks around them. -/
def cellsOf? (line : List Char) : Option (List (List Char)) :=
  match line with
  | '│' :: rest => some ((Text.splitAt '│' rest).dropLast.map Text.trim)
  | _ => none

/-- The rows that a drawing shows below its header. -/
def rowsShown (drawing : List Char) : List (List (List Char)) :=
  (Text.splitAt '\n' drawing).filterMap cellsOf?

/-- Texts that can stand inside a frame without being taken for a part of it. -/
structure IsUnframed (text : List Char) : Prop where
  noBar : '│' ∉ text
  noBreak : '\n' ∉ text

/-- A table whose rows all have cells, and whose texts are not taken for a part of the frame. -/
structure IsLegible (table : Table) : Prop where
  nonempty : ∀ row ∈ table.rows, row ≠ []
  cells : ∀ row ∈ table.rows, ∀ cell ∈ row, IsUnframed cell ∧ Text.trim cell = cell
  header : ∀ header ∈ table.header, ∀ cell ∈ header, IsUnframed cell
  title : ∀ title ∈ table.title, IsUnframed title

variable {table : Table} {row : List (List Char)} {line rest : List Char}

/-! Texts and the frame -/

instance (text : List Char) : Decidable (IsUnframed text) :=
  decidable_of_iff ('│' ∉ text ∧ '\n' ∉ text)
    ⟨fun absent => ⟨absent.1, absent.2⟩, fun unframed => ⟨unframed.noBar, unframed.noBreak⟩⟩

theorem isUnframed_iff {text : List Char} :
    IsUnframed text ↔ ∀ c ∈ text, c ≠ '│' ∧ c ≠ '\n' := by
  constructor
  · intro unframed c member
    exact ⟨fun same => unframed.noBar (same ▸ member), fun same => unframed.noBreak (same ▸ member)⟩
  · intro other
    exact ⟨fun member => (other _ member).1 rfl, fun member => (other _ member).2 rfl⟩

theorem IsUnframed.append {text further : List Char} (first : IsUnframed text)
    (last : IsUnframed further) : IsUnframed (text ++ further) := by
  rw [isUnframed_iff] at first last ⊢
  exact List.forall_mem_append.mpr ⟨first, last⟩

theorem IsUnframed.cons {c : Char} {text : List Char} (notFrame : c ≠ '│' ∧ c ≠ '\n')
    (unframed : IsUnframed text) : IsUnframed (c :: text) := by
  rw [isUnframed_iff] at unframed ⊢
  exact List.forall_mem_cons.mpr ⟨notFrame, unframed⟩

theorem isUnframed_replicate {c : Char} (notFrame : c ≠ '│' ∧ c ≠ '\n') (count : Nat) :
    IsUnframed (List.replicate count c) := by
  rw [isUnframed_iff]
  exact fun d member => List.eq_of_mem_replicate member ▸ notFrame

theorem isUnframed_intercalate {separator : Char} {pieces : List (List Char)}
    (notFrame : separator ≠ '│' ∧ separator ≠ '\n')
    (unframed : ∀ piece ∈ pieces, IsUnframed piece) :
    IsUnframed ([separator].intercalate pieces) := by
  rw [isUnframed_iff]
  intro c member
  rcases Text.mem_of_mem_intercalate member with rfl | ⟨piece, among, inPiece⟩
  · exact notFrame
  · exact isUnframed_iff.mp (unframed piece among) c inPiece

/-! Lines -/

theorem cellsOf?_of_not_mem (noBar : '│' ∉ line) : cellsOf? line = none := by
  unfold cellsOf?
  split
  · exact absurd List.mem_cons_self noBar
  · rfl

theorem rowsShown_append (noBreak : '\n' ∉ line) :
    rowsShown (line ++ '\n' :: rest) = (cellsOf? line).toList ++ rowsShown rest := by
  unfold rowsShown
  rw [Text.splitAt_append noBreak, List.filterMap_cons]
  cases cellsOf? line <;> rfl

theorem rowsShown_of_isUnframed (unframed : IsUnframed line) :
    rowsShown (line ++ '\n' :: rest) = rowsShown rest := by
  rw [rowsShown_append unframed.noBreak, cellsOf?_of_not_mem unframed.noBar]
  rfl

theorem rowsShown_rule {rule : Rule}
    (unframed : IsUnframed [rule.left, rule.dash, rule.cross, rule.right]) (widths : List Nat) :
    rowsShown (rule.draw widths ++ rest) = rowsShown rest := by
  have notFrame := isUnframed_iff.mp unframed
  have dashes : IsUnframed ([rule.cross].intercalate
      (widths.map fun width => List.replicate (width + 2) rule.dash)) := by
    refine isUnframed_intercalate (notFrame _ (by simp)) (List.forall_mem_map.mpr fun width _ => ?_)
    exact isUnframed_replicate (notFrame _ (by simp)) _
  have right : IsUnframed [rule.right] := by
    rw [isUnframed_iff]
    exact List.forall_mem_singleton.mpr (notFrame _ (by simp))
  have whole := (dashes.append right).cons (notFrame rule.left List.mem_cons_self)
  have drawn : rowsShown (_ ++ '\n' :: rest) = rowsShown rest := rowsShown_of_isUnframed whole
  simpa [Rule.draw] using drawn

/-! Rows -/

def padded (width : Nat) (cell : List Char) : List Char :=
  ' ' :: cell ++ List.replicate (width - cell.length) ' ' ++ [' ']

theorem trim_padded (width : Nat) (cell : List Char) :
    Text.trim (padded width cell) = Text.trim cell := by
  have front : ∀ c ∈ [' '], Text.isBlank c = true :=
    List.forall_mem_singleton.mpr Text.isBlank_space
  have filling : ∀ c ∈ List.replicate (width - cell.length) ' ', Text.isBlank c = true :=
    fun c member => List.eq_of_mem_replicate member ▸ Text.isBlank_space
  have back := List.forall_mem_append.mpr ⟨filling, front⟩
  have trimmed := Text.trim_of_margins front back cell
  simpa [padded] using trimmed

theorem isUnframed_padded {cell : List Char} (unframed : IsUnframed cell) (width : Nat) :
    IsUnframed (padded width cell) :=
  ((unframed.cons (by decide)).append (isUnframed_replicate (by decide) _)).append (by decide)

theorem forall_mem_zipWith_padded {widths : List Nat} (unframed : ∀ cell ∈ row, IsUnframed cell) :
    ∀ piece ∈ widths.zipWith padded row, IsUnframed piece := by
  induction row generalizing widths with
  | nil => simp
  | cons cell others ih =>
      obtain ⟨here, there⟩ := List.forall_mem_cons.mp unframed
      cases widths with
      | nil => simp
      | cons width widths => exact List.forall_mem_cons.mpr ⟨isUnframed_padded here width, ih there⟩

theorem map_trim_zipWith_padded {widths : List Nat} (wide : row.length ≤ widths.length)
    (trimmed : ∀ cell ∈ row, Text.trim cell = cell) :
    (widths.zipWith padded row).map Text.trim = row := by
  induction row generalizing widths with
  | nil => simp
  | cons cell others ih =>
      cases widths with
      | nil => simp at wide
      | cons width widths =>
          obtain ⟨here, there⟩ := List.forall_mem_cons.mp trimmed
          rw [List.zipWith_cons_cons, List.map_cons, trim_padded, here,
            ih (Nat.le_of_succ_le_succ wide) there]

/-- The line of a row, without the break that ends it. -/
def barred (bar : Char) (widths : List Nat) (row : List (List Char)) : List Char :=
  bar :: ([bar].intercalate (widths.zipWith padded row) ++ [bar])

theorem drawRow_append (bar : Char) (widths : List Nat) (row : List (List Char))
    (rest : List Char) : drawRow bar widths row ++ rest = barred bar widths row ++ '\n' :: rest := by
  have line : drawRow bar widths row =
      bar :: [bar].intercalate (widths.zipWith padded row) ++ [bar, '\n'] := rfl
  simp [line, barred]

theorem rowsShown_header {widths : List Nat} (unframed : ∀ cell ∈ row, IsUnframed cell) :
    rowsShown (drawRow '┃' widths row ++ rest) = rowsShown rest := by
  have cells : IsUnframed (['┃'].intercalate (widths.zipWith padded row)) :=
    isUnframed_intercalate (by decide) (forall_mem_zipWith_padded unframed)
  rw [drawRow_append]
  exact rowsShown_of_isUnframed ((cells.append (by decide)).cons (by decide))

theorem noBreak_barred {widths : List Nat} (unframed : ∀ cell ∈ row, IsUnframed cell) :
    '\n' ∉ barred '│' widths row := by
  intro member
  simp only [barred, List.mem_cons, List.mem_append, List.not_mem_nil, or_false,
    show ('\n' = '│') = False by decide, false_or] at member
  rcases Text.mem_of_mem_intercalate member with bar | ⟨piece, among, inPiece⟩
  · cases bar
  · exact (forall_mem_zipWith_padded unframed piece among).noBreak inPiece

theorem cellsOf?_barred {widths : List Nat} (nonempty : row ≠ [])
    (wide : row.length ≤ widths.length)
    (cells : ∀ cell ∈ row, IsUnframed cell ∧ Text.trim cell = cell) :
    cellsOf? (barred '│' widths row) = some row := by
  have somePiece : widths.zipWith padded row ≠ [] := by
    have someWidth : widths ≠ [] := List.ne_nil_of_length_pos
      (Nat.lt_of_lt_of_le (List.length_pos_iff.mpr nonempty) wide)
    simpa [List.zipWith_eq_nil_iff, nonempty] using someWidth
  have pieces : ∀ piece ∈ widths.zipWith padded row, IsUnframed piece :=
    forall_mem_zipWith_padded fun cell member => (cells cell member).1
  have cut := Text.splitAt_append_cons '│' (['│'].intercalate (widths.zipWith padded row)) []
  rw [Text.splitAt_intercalate somePiece fun piece member => (pieces piece member).noBar,
    Text.splitAt] at cut
  have read : cellsOf? (barred '│' widths row) = some ((Text.splitAt '│'
      (['│'].intercalate (widths.zipWith padded row) ++ ['│'])).dropLast.map Text.trim) := rfl
  rw [read, cut, List.dropLast_concat,
    map_trim_zipWith_padded wide fun cell member => (cells cell member).2]

theorem rowsShown_row {widths : List Nat} (nonempty : row ≠ []) (wide : row.length ≤ widths.length)
    (cells : ∀ cell ∈ row, IsUnframed cell ∧ Text.trim cell = cell) :
    rowsShown (drawRow '│' widths row ++ rest) = row :: rowsShown rest := by
  rw [drawRow_append,
    rowsShown_append (noBreak_barred fun cell member => (cells cell member).1),
    cellsOf?_barred nonempty wide cells]
  rfl

/-! Widths -/

theorem length_widen (widths others : List Nat) :
    (Table.widths.widen widths others).length = max widths.length others.length := by
  induction widths, others using Table.widths.widen.induct with
  | case1 others => simp [Table.widths.widen]
  | case2 widths nonempty => simp [Table.widths.widen]
  | case3 width widths other others ih => simp [Table.widths.widen, ih]

theorem length_le_foldl_widen (rows : List (List (List Char))) (widths : List Nat) :
    let final := rows.foldl
      (fun widths row => Table.widths.widen widths (row.map List.length)) widths
    widths.length ≤ final.length ∧ ∀ row ∈ rows, row.length ≤ final.length := by
  induction rows generalizing widths with
  | nil => simp
  | cons row others ih =>
      obtain ⟨grown, further⟩ := ih (Table.widths.widen widths (row.map List.length))
      rw [length_widen, List.length_map] at grown
      refine ⟨Nat.le_trans (Nat.le_max_left _ _) grown, List.forall_mem_cons.mpr ⟨?_, further⟩⟩
      exact Nat.le_trans (Nat.le_max_right _ _) grown

theorem length_le_widths (member : row ∈ table.rows) : row.length ≤ table.widths.length :=
  (length_le_foldl_widen table.allRows []).2 row (List.mem_append_right _ member)

/-! Whole drawings -/

theorem rowsShown_rows {rows : List (List (List Char))} {widths : List Nat}
    (nonempty : ∀ row ∈ rows, row ≠ []) (wide : ∀ row ∈ rows, row.length ≤ widths.length)
    (cells : ∀ row ∈ rows, ∀ cell ∈ row, IsUnframed cell ∧ Text.trim cell = cell) :
    rowsShown (rows.flatMap (drawRow '│' widths) ++ rest) = rows ++ rowsShown rest := by
  induction rows with
  | nil => rfl
  | cons row others ih =>
      rw [List.flatMap_cons, List.append_assoc, rowsShown_row (nonempty row List.mem_cons_self)
          (wide row List.mem_cons_self) (cells row List.mem_cons_self),
        ih (fun row member => nonempty row (List.mem_cons_of_mem _ member))
          (fun row member => wide row (List.mem_cons_of_mem _ member))
          (fun row member => cells row (List.mem_cons_of_mem _ member)), List.cons_append]

theorem rowsShown_title {title : List Char} (unframed : IsUnframed title) (widths : List Nat) :
    rowsShown (drawTitle widths title ++ rest) = rowsShown rest := by
  have margin (count : Nat) : IsUnframed (List.replicate count ' ') :=
    isUnframed_replicate (by decide) count
  rw [drawTitle, List.append_assoc, List.singleton_append]
  exact rowsShown_of_isUnframed (((margin _).append unframed).append (margin _))

theorem rowsShown_head (header : ∀ header ∈ table.header, ∀ cell ∈ header, IsUnframed cell) :
    rowsShown ((match table.header with
      | some header => heavyTop.draw table.widths ++ drawRow '┃' table.widths header ++
          underHeader.draw table.widths
      | none => lightTop.draw table.widths) ++ rest) = rowsShown rest := by
  cases given : table.header with
  | none => exact rowsShown_rule (by decide) _
  | some cells =>
      rw [List.append_assoc, List.append_assoc, rowsShown_rule (by decide),
        rowsShown_header (header cells given), rowsShown_rule (by decide)]

/-- What is drawn of a table shows its rows. -/
theorem rowsShown_draw (legible : table.IsLegible) : rowsShown table.draw = table.rows := by
  have below : rowsShown (table.rows.flatMap (drawRow '│' table.widths) ++
      bottom.draw table.widths) = table.rows := by
    have frame : rowsShown (bottom.draw table.widths ++ []) = rowsShown [] :=
      rowsShown_rule (by decide) table.widths
    rw [List.append_nil] at frame
    rw [rowsShown_rows legible.nonempty (fun row => length_le_widths) legible.cells, frame]
    exact List.append_nil _
  have drawn : rowsShown table.draw =
      rowsShown (table.rows.flatMap (drawRow '│' table.widths) ++ bottom.draw table.widths) := by
    rw [draw, List.append_assoc, List.append_assoc]
    cases given : table.title with
    | none => exact rowsShown_head legible.header
    | some title =>
        exact (rowsShown_title (legible.title title given) _).trans (rowsShown_head legible.header)
  exact drawn.trans below

end Recurrence.Console.Table
