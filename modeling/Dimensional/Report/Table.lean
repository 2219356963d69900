import Dimensional.Text.Cluster

/-!
# Tables

Tables with borders of box drawing characters. Each column is as wide as the widest line in it, with a blank on either
side; a cell may have several lines.
-/

namespace Dimensional

/-- A table with a header. All rows should have as many cells as the header. -/
structure Table where
  header : List String
  rows : List (List String)
deriving DecidableEq, Inhabited

namespace Table

/-- The lines of a cell. -/
def cellLines (cell : String) : List (List Char) :=
  cell.toList.splitOn '\n'

/-- The width of a cell. -/
def cellWidth (cell : String) : Nat :=
  ((cellLines cell).map displayWidth).foldl max 0

/-- Column by column the greater one of two widths. -/
def maxWidths : List Nat → List Nat → List Nat
  | w :: ws, v :: vs => max w v :: maxWidths ws vs
  | ws, [] => ws
  | [], vs => vs

/-- The widths of the columns. -/
def widths (t : Table) : List Nat :=
  t.rows.foldl (fun ws row => maxWidths ws (row.map cellWidth)) (t.header.map cellWidth)

/-! ### Rules -/

/-- The characters of a rule: at its left end, along it, between columns, and at its right end. -/
structure Rule where
  left : Char
  along : Char
  cross : Char
  right : Char

/-- The rule above the header. -/
def Rule.top : Rule := ⟨'┌', '─', '┬', '┐'⟩

/-- The rule below the header. -/
def Rule.belowHeader : Rule := ⟨'╞', '═', '╪', '╡'⟩

/-- The rule between rows. -/
def Rule.between : Rule := ⟨'├', '╌', '┼', '┤'⟩

/-- The rule below the last row. -/
def Rule.bottom : Rule := ⟨'└', '─', '┴', '┘'⟩

/-- A rule across columns of some widths, one column of space on either side of each. -/
def rule (r : Rule) (widths : List Nat) : List Char :=
  r.left :: (List.intercalate [r.cross] (widths.map fun w => List.replicate (w + 2) r.along) ++ [r.right])

/-! ### Rows -/

/-- A line of a cell, filled up with blanks to the width of the column. -/
def padded (width : Nat) (line : List Char) : List Char :=
  ' ' :: line ++ List.replicate (width - displayWidth line) ' ' ++ [' ']

/-- A line of a row. -/
def lineOf (widths : List Nat) (lines : List (List Char)) : List Char :=
  '│' :: (List.intercalate ['┆'] (List.zipWith padded widths lines) ++ ['│'])

/-- The lines of a row. A cell with fewer lines than another one ends with empty lines. -/
def rowLines (widths : List Nat) (row : List String) : List (List Char) :=
  let cells := row.map cellLines
  let height := (cells.map List.length).foldl max 0
  (List.range height).map fun i => lineOf widths (cells.map fun ls => ls[i]?.getD [])

/-- The lines of a table. -/
def lines (t : Table) : List (List Char) :=
  let ws := t.widths
  [rule .top ws] ++ rowLines ws t.header ++ [rule .belowHeader ws] ++
    List.intercalate [rule .between ws] (t.rows.map (rowLines ws)) ++ [rule .bottom ws]

/-- The text of a table, without a line break at its end. -/
def text (t : Table) : String :=
  "\n".intercalate (t.lines.map String.ofList)

end Table
end Dimensional
