/-!
# Lines of a text

A line feed ends a line, and a carriage return right before it belongs to the line end. A carriage
return elsewhere is text.
-/

namespace JassSyntax.Text

/-- The text up to the first line end. -/
def firstLine (cs : List Char) : List Char :=
  match cs.span (· ≠ '\n') with
  | (line, []) => line
  | (line, _ :: _) => if line.getLast? = some '\r' then line.dropLast else line

/-- What follows the first line feed. -/
def afterLine (cs : List Char) : List Char :=
  (cs.dropWhile (· ≠ '\n')).tail

/-- The `n`-th line, counted from zero. Past the last line end there is nothing. -/
def line : Nat → List Char → List Char
  | 0, cs => firstLine cs
  | n + 1, cs => line n (afterLine cs)

end JassSyntax.Text
