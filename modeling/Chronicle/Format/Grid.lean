import Chronicle.Text.Width

/-!
# Grids of text

A grid shows a header and rows of cells in columns of equal width, with lines
of ASCII characters around them. A cell may have several lines, and a row is
as high as its highest cell.
-/

namespace Chronicle.Grid

/-- The lines of a cell. -/
def cellLines (cell : String) : List String := cell.splitOn "\n"

/-- The width of a cell. -/
def cellWidth (cell : String) : Nat := ((cellLines cell).map Text.width).foldl max 0

/-- The width of a column, at least one. -/
def columnWidth (rows : List (List String)) (column : Nat) : Nat :=
  (rows.map fun row => cellWidth (row[column]?.getD "")).foldl max 1

/-- The widths of all columns. -/
def columnWidths (rows : List (List String)) : List Nat :=
  (List.range ((rows.map List.length).foldl max 0)).map (columnWidth rows)

/-- A line of a cell, filled with blanks up to a width. -/
def pad (width : Nat) (line : String) : String := line.pushn ' ' (width - Text.width line)

/-- One text line of a row. -/
def rowLine (widths : List Nat) (cells : List (List String)) (line : Nat) : String :=
  let parts := widths.zipIdx.map fun (width, column) =>
    " " ++ pad width (((cells[column]?.getD [])[line]?).getD "") ++ " "
  "|" ++ "|".intercalate parts ++ "|"

/-- The text lines of a row. -/
def rowLines (widths : List Nat) (row : List String) : List String :=
  let cells := row.map cellLines
  (List.range ((cells.map List.length).foldl max 1)).map (rowLine widths cells)

/-- The dashes of a line between rows. -/
def dashes (widths : List Nat) : String :=
  "+".intercalate (widths.map fun width => "".pushn '-' (width + 2))

/-- The line at the top and at the bottom. -/
def border (widths : List Nat) : String := "+" ++ dashes widths ++ "+"

/-- The line under the header. -/
def headerLine (widths : List Nat) : String :=
  "+" ++ "".pushn '=' (dashes widths).length ++ "+"

/-- The line between two rows. -/
def separator (widths : List Nat) : String := "|" ++ dashes widths ++ "|"

/-- The text of a grid. -/
def text (header : List String) (rows : List (List String)) : String :=
  let widths := columnWidths (header :: rows)
  let body := ((rows.map (rowLines widths)).intersperse [separator widths]).flatten
  "\n".intercalate
    ([border widths] ++ rowLines widths header ++ [headerLine widths] ++ body ++ [border widths])

end Chronicle.Grid
