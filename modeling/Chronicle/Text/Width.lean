import Chronicle.Text.Lowercase
import Chronicle.Text.WidthTable

/-!
# Display width

The number of columns that a line of text takes on a terminal of fixed pitch.
-/

namespace Chronicle.Text

/-- The columns that a character takes. -/
def charWidth (c : Char) : Nat :=
  if inRanges zeroWidthRanges c then 0 else if inRanges wideRanges c then 2 else 1

/-- The columns that a line takes. -/
def width (line : String) : Nat := line.toList.foldl (fun columns c => columns + charWidth c) 0

end Chronicle.Text
