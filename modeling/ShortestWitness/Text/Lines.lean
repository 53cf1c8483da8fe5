/-!
# Lines of a text

A line ends with a line feed, which is not part of it, nor is a carriage return right before the
line feed. What follows the last line feed is a line of its own unless it is empty.
-/

namespace ShortestWitness.Text

/-- The line without one carriage return at its end. -/
def dropReturn (line : List Char) : List Char :=
  if line.getLast? = some '\r' then line.dropLast else line

/-- The lines of a text from first to last. -/
def lines (text : List Char) : List (List Char) :=
  let pieces := text.splitOn '\n'
  pieces.dropLast.map dropReturn ++ pieces.getLast?.toList.filter (· ≠ [])

end ShortestWitness.Text
