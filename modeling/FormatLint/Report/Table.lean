import FormatLint.Text.Blank
import FormatLint.Text.Width

/-!
Tables of text without borders. Columns are aligned to the left by their width on a terminal, each
cell stands after two blanks, and a cell of several lines spreads over several rows.
-/

namespace FormatLint.Report

/-- The lines of a cell. -/
abbrev Cell := List (List Char)

def Cell.ofText (text : String) : Cell := Text.lines text.toList

def Cell.width (cell : Cell) : Nat := (cell.map Text.displayWidth).foldl max 0

abbrev Row := List Cell

/-- The width of each of `columns` columns. -/
def columnWidths (columns : Nat) (rows : List Row) : List Nat :=
  (List.range columns).map fun i =>
    (rows.map fun row => Cell.width (row.getD i [])).foldl max 0

def fill (width : Nat) (line : List Char) : List Char :=
  line ++ List.replicate (width - Text.displayWidth line) ' '

/-- The line with number `index` of a row. The last cell is not filled up. -/
def rowLine (index : Nat) : List Nat → Row → List Char
  | width :: widths, cell :: cells =>
    let line := cell.getD index []
    let shown := if cells.isEmpty then line else fill width line
    ' ' :: ' ' :: shown ++ rowLine index widths cells
  | _, _ => []

def rowHeight (row : Row) : Nat := (row.map List.length).foldl max 0

def renderRow (widths : List Nat) (row : Row) : List Char :=
  ((List.range (rowHeight row)).map fun index => rowLine index widths row ++ ['\n']).flatten

/-- A table of rows that all have `columns` cells. -/
def renderTable (columns : Nat) (rows : List Row) : List Char :=
  (rows.map (renderRow (columnWidths columns rows))).flatten

end FormatLint.Report
