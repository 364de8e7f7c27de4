import JassSyntax.Problem.Basic
import JassSyntax.Text.Lines

/-!
# Problems shown in their source

A problem is shown with the line in which it starts and a row of carets under the code it is about.
-/

namespace JassSyntax.Problem

/-- How many carets underline a span that starts in `line`: as many as it has columns there, but one
at least. A span that goes on in later lines is underlined to the end of its first. -/
def caretCount (s : Span) (line : List Char) : Nat :=
  let stop := if s.stop.line = s.start.line then s.stop.column else line.length
  max 1 (stop - s.start.column)

/-- A text of `n` times the same character. -/
def repeated (n : Nat) (c : Char) : String := String.ofList (List.replicate n c)

/-- How wide the column of line numbers is. -/
def gutterWidth (line : Nat) : Nat := max 2 (toString line).length

/-- The problem in `file`, whose text is `source`, over several lines. -/
def excerpt (file source : String) (p : Problem) : String :=
  let start := p.span.start
  let line := Text.line start.line source.toList
  let row := toString (start.line + 1)
  let column := toString (start.column + 1)
  let gutter := gutterWidth (start.line + 1)
  let pad := repeated gutter ' '
  let number := repeated (gutter - row.length) ' ' ++ row
  let carets := repeated start.column ' ' ++ repeated (caretCount p.span line) '^'
  let shown := String.ofList line
  let about := s!"error[{p.code}]: {p.message}\n"
  let place := s!"{pad}--> {file}:{row}:{column}\n"
  let code := s!"{pad} |\n{number} | {shown}\n{pad} | {carets}\n"
  let wanted := ", ".intercalate (p.expected.map Kind.describe)
  let hint := if 1 < p.expected.length then s!"{pad} = expected one of: {wanted}\n" else ""
  about ++ place ++ code ++ hint

end JassSyntax.Problem
