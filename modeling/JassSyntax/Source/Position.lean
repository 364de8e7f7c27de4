/-!
# Places in source text

A position counts bytes, lines and columns together, so that slicing, diagnostics and tree dumps
read the same value. A span is the half-open stretch between two positions.
-/

namespace JassSyntax

/-- A place in source text: its distance in UTF-8 bytes from the start, and its line and column,
both counted from zero. A column is a number of code points. -/
structure Position where
  offset : Nat
  line : Nat
  column : Nat
  deriving DecidableEq, Repr, Inhabited

namespace Position

/-- The start of every text. -/
def origin : Position := ⟨0, 0, 0⟩

/-- The place just after `c`, when `c` stands at `p`. Only a line feed starts a new line. -/
def after (p : Position) (c : Char) : Position :=
  if c = '\n' then ⟨p.offset + c.utf8Size, p.line + 1, 0⟩
  else ⟨p.offset + c.utf8Size, p.line, p.column + 1⟩

/-- The place just after the characters `cs`, when they stand at `p`. -/
def afterAll (p : Position) (cs : List Char) : Position :=
  cs.foldl after p

/-- Positions in reading order: by offset, then line, then column. -/
def compare (p q : Position) : Ordering :=
  (Ord.compare p.offset q.offset).then
    ((Ord.compare p.line q.line).then (Ord.compare p.column q.column))

@[simp] theorem afterAll_nil (p : Position) : p.afterAll [] = p := rfl

@[simp] theorem afterAll_cons (p : Position) (c : Char) (cs : List Char) :
    p.afterAll (c :: cs) = (p.after c).afterAll cs := rfl

theorem afterAll_append (p : Position) (cs ds : List Char) :
    p.afterAll (cs ++ ds) = (p.afterAll cs).afterAll ds :=
  List.foldl_append ..

theorem offset_after (p : Position) (c : Char) : (p.after c).offset = p.offset + c.utf8Size := by
  unfold after; split <;> rfl

end Position

/-- The half-open stretch of text from `start` up to `stop`. -/
structure Span where
  start : Position
  stop : Position
  deriving DecidableEq, Repr, Inhabited

namespace Span

/-- The span of no width at `p`. -/
def empty (p : Position) : Span := ⟨p, p⟩

/-- Both ends at one offset. -/
def isEmpty (s : Span) : Bool := s.start.offset == s.stop.offset

/-- The smallest span that holds both. On equal offsets the positions of `s` stay. -/
def cover (s t : Span) : Span where
  start := if t.start.offset < s.start.offset then t.start else s.start
  stop := if s.stop.offset < t.stop.offset then t.stop else s.stop

/-- The text under the span. A span that does not lie on the characters of `source` has none. -/
def text (s : Span) (source : String) : String :=
  String.Pos.Raw.extract source ⟨s.start.offset⟩ ⟨s.stop.offset⟩

theorem isEmpty_empty (p : Position) : (empty p).isEmpty = true := by simp [isEmpty, empty]

end Span

end JassSyntax
