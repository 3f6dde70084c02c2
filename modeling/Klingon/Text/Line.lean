import Klingon.Text
import Klingon.Text.Blank

/-!
# Lines and words

A line feed ends a line, together with a carriage return right before it. What follows the last
line feed is a line too unless it is empty; its carriage returns are kept.
-/

namespace Klingon.Text

/-- Drops one carriage return at the end. -/
def dropReturn (line : Text) : Text :=
  if line.getLast? = some '\r' then line.dropLast else line

/-- The lines of a text whose pieces between line feeds are given. -/
def linesOfPieces : List Text → List Text
  | [] => []
  | [last] => if last.isEmpty then [] else [last]
  | piece :: next :: more => dropReturn piece :: linesOfPieces (next :: more)

def lines (text : Text) : List Text :=
  linesOfPieces (text.splitOn '\n')

/-- The text without the blanks at both ends. -/
def trimmed (text : Text) : Text :=
  (((text.dropWhile isBlank).reverse).dropWhile isBlank).reverse

/-- The maximal runs of characters that are not blank. -/
def blankSeparated (text : Text) : List Text :=
  (text.splitOnP isBlank).filter fun word => !word.isEmpty

end Klingon.Text
