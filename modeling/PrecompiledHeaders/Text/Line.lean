import PrecompiledHeaders.Text.Split

/-!
# Lines

The lines of a text. A line feed ends a line; a carriage return in front of it belongs to the
line end too. What follows the last line feed is a line only if it is not empty, and keeps a
carriage return it ends with.
-/

namespace PrecompiledHeaders

/-- A line without the carriage return of its line end. -/
def dropCarriageReturn (line : List Char) : List Char :=
  if line.getLast? = some '\r' then line.dropLast else line

/-- The lines of the pieces between line feeds. -/
def linesOfPieces : List (List Char) → List (List Char)
  | [] => []
  | [last] => if last = [] then [] else [last]
  | line :: others => dropCarriageReturn line :: linesOfPieces others

/-- The lines of a text. -/
def lines (text : List Char) : List (List Char) :=
  linesOfPieces (split '\n' text)

end PrecompiledHeaders
