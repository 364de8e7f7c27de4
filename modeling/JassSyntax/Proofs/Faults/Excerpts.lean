import JassSyntax.Problem.Excerpt
import JassSyntax.Proofs.Faults.Pointing
import JassSyntax.Proofs.Scanning.Counting
import JassSyntax.Proofs.Scanning.LineEnds
import Mathlib.Data.List.Forall2

/-!
# What excerpts underline

An excerpt finds its line by cutting the text at line ends from the front, and puts the carets by
the line and column of its span, which the scanner has counted on the way. The two agree as long as
neither end of the span lies inside a line end, and no token of a text has its ends there. So the
excerpt for an error shows the line in which the span starts, and the carets stand under what that
line has of it.
-/

namespace JassSyntax

namespace Text

/-! ## Lines -/

/-- A text and what stands before its first line end, which is a line feed, or a carriage return and
a line feed, or the end of the text. -/
inductive UpToLineEnd : List Char → List Char → Prop
  | last {line : List Char} (flat : '\n' ∉ line) : UpToLineEnd line line
  | feed {line : List Char} (rest : List Char) (flat : '\n' ∉ line)
      (bare : line.getLast? ≠ some '\r') : UpToLineEnd (line ++ '\n' :: rest) line
  | both {line : List Char} (rest : List Char) (flat : '\n' ∉ line) :
      UpToLineEnd (line ++ '\r' :: '\n' :: rest) line

/-- Lines with their ends, none of them unfinished. -/
def WholeLines (above : List Char) : Prop := above = [] ∨ above.getLast? = some '\n'

variable {above left under after line cs : List Char}

theorem ne_of_flat (flat : '\n' ∉ cs) : ∀ c ∈ cs, decide (c ≠ '\n') = true := by
  intro c mem
  exact decide_eq_true fun feed => flat (feed ▸ mem)

theorem firstLine_of_flat (flat : '\n' ∉ cs) : firstLine cs = cs := by
  have all := ne_of_flat flat
  rw [firstLine, List.span_eq_takeWhile_dropWhile, List.takeWhile_eq_self_iff.mpr all,
    List.dropWhile_eq_nil_iff.mpr all]

theorem firstLine_feed (flat : '\n' ∉ line) (rest : List Char) :
    firstLine (line ++ '\n' :: rest) =
      if line.getLast? = some '\r' then line.dropLast else line := by
  have all := ne_of_flat flat
  rw [firstLine, List.span_eq_takeWhile_dropWhile, List.takeWhile_append_of_pos all,
    List.dropWhile_append_of_pos all]
  simp

theorem upToLineEnd_firstLine (cs : List Char) : UpToLineEnd cs (firstLine cs) := by
  by_cases more : '\n' ∈ cs
  · obtain ⟨line, rest, rfl, flat⟩ := List.eq_append_cons_of_mem more
    rw [firstLine_feed flat]
    split
    · next cr =>
      obtain ⟨init, rfl⟩ := List.getLast?_eq_some_iff.mp cr
      rw [List.dropLast_concat, List.append_assoc]
      exact .both rest fun mem => flat (List.mem_append_left _ mem)
    · next bare => exact .feed rest flat bare
  · rw [firstLine_of_flat more]
    exact .last more

/-- The first line begins with all that has no line feed, except that a carriage return can belong
to the line end behind. -/
theorem firstLine_append (flat : '\n' ∉ left) (seam : Seam left after) :
    firstLine (left ++ after) = left ++ firstLine after := by
  by_cases more : '\n' ∈ after
  · obtain ⟨line, rest, rfl, flat'⟩ := List.eq_append_cons_of_mem more
    have both : '\n' ∉ left ++ line := by
      rw [List.mem_append]
      exact not_or.mpr ⟨flat, flat'⟩
    rw [← List.append_assoc, firstLine_feed both, firstLine_feed flat']
    rcases List.eq_nil_or_concat line with rfl | ⟨init, last, rfl⟩
    · rw [List.append_nil, if_neg fun cr => seam cr rfl]
      simp
    · rw [List.getLast?_append_of_ne_nil _ (by simp), List.dropLast_append_of_ne_nil (by simp)]
      split <;> rfl
  · rw [firstLine_of_flat more, firstLine_of_flat]
    rw [List.mem_append]
    exact not_or.mpr ⟨flat, more⟩

/-- What reaches over a line feed has the rest of the line in it. -/
theorem firstLine_prefix (feed : '\n' ∈ under) (after : List Char) :
    firstLine (under ++ after) <+: under := by
  obtain ⟨line, rest, rfl, flat⟩ := List.eq_append_cons_of_mem feed
  rw [List.append_assoc, List.cons_append, firstLine_feed flat]
  split
  · exact (List.dropLast_prefix line).trans (List.prefix_append _ _)
  · exact List.prefix_append _ _

/-- What of a line and of a text across it the two have in common. The one or the other ends there. -/
theorem exists_on (seam : Seam under after) : ∃ on below right,
    under = on ++ below ∧ firstLine (under ++ after) = on ++ right ∧
      ('\n' ∉ under ∧ below = [] ∨ '\n' ∈ under ∧ right = []) := by
  by_cases feed : '\n' ∈ under
  · obtain ⟨below, split⟩ := firstLine_prefix feed after
    exact ⟨_, below, [], split.symm, (List.append_nil _).symm, .inr ⟨feed, rfl⟩⟩
  · exact ⟨under, [], _, (List.append_nil _).symm, firstLine_append feed seam, .inl ⟨feed, rfl⟩⟩

theorem afterLine_cons_of_ne {c : Char} (other : c ≠ '\n') (cs : List Char) :
    afterLine (c :: cs) = afterLine cs := by
  rw [afterLine, afterLine, List.dropWhile_cons_of_pos (by simpa using other)]

/-- Behind whole lines, the next one has as many before it as there are line feeds. -/
theorem line_append {above : List Char} (whole : WholeLines above) (cs : List Char) :
    Text.line (above.count '\n') (above ++ cs) = firstLine cs := by
  induction above with
  | nil => rfl
  | cons c above ih =>
      have below : WholeLines above := by
        rcases whole with empty | last
        · cases empty
        · cases above with
          | nil => exact .inl rfl
          | cons d above => exact .inr (by simpa using last)
      by_cases feed : c = '\n'
      · rw [feed, List.count_cons_self, List.cons_append, Text.line, ← ih below]
        rfl
      · have last : above.getLast? = some '\n' := by
          refine below.resolve_left ?_
          rintro rfl
          exact feed (by simpa [WholeLines] using whole)
        obtain ⟨n, count⟩ := Nat.exists_eq_succ_of_ne_zero
          (List.count_pos_iff.mpr (List.mem_of_getLast? last)).ne'
        rw [List.count_cons_of_ne feed, List.cons_append, count, Text.line,
          afterLine_cons_of_ne feed, ← ih below, count]
        rfl

theorem exists_wholeLines (before : List Char) :
    ∃ above left, before = above ++ left ∧ WholeLines above ∧ '\n' ∉ left := by
  induction before using List.reverseRecOn with
  | nil => exact ⟨[], [], rfl, .inl rfl, List.not_mem_nil⟩
  | append_singleton before c ih =>
      by_cases feed : c = '\n'
      · exact ⟨before ++ [c], [], (List.append_nil _).symm, .inr (by simp [feed]), List.not_mem_nil⟩
      · obtain ⟨above, left, rfl, whole, flat⟩ := ih
        refine ⟨above, left ++ [c], List.append_assoc .., whole, fun mem => ?_⟩
        rcases List.mem_append.mp mem with mem | mem
        · exact flat mem
        · exact feed (List.mem_singleton.mp mem).symm

end Text

open Text (Seam UpToLineEnd WholeLines)

/-! ## Lines and columns -/

namespace Position

variable {p : Position} {cs : List Char}

theorem column_of_wholeLines {above : List Char} (whole : WholeLines above) :
    (origin.afterAll above).column = 0 := by
  rcases whole with rfl | last
  · rfl
  · obtain ⟨init, rfl⟩ := List.getLast?_eq_some_iff.mp last
    rw [afterAll_append]
    rfl

theorem column_of_flat (flat : '\n' ∉ cs) : (p.afterAll cs).column = p.column + cs.length := by
  induction cs generalizing p with
  | nil => rfl
  | cons c cs ih =>
      rw [List.mem_cons, not_or] at flat
      rw [afterAll_cons, ih flat.2, column_after, if_neg (Ne.symm flat.1), List.length_cons]
      omega

theorem line_eq_iff : (p.afterAll cs).line = p.line ↔ '\n' ∉ cs := by
  rw [line_afterAll, ← List.count_eq_zero]
  omega

end Position

/-! ## Quotes -/

/-- A span in its text, cut apart along the line in which it starts. -/
structure Quote (source : String) (s : Span) where
  /-- The lines above. -/
  above : List Char
  /-- What the line has to the left of the span. -/
  left : List Char
  /-- What the line has of the span. -/
  on : List Char
  /-- What the line has to the right of the span. -/
  right : List Char
  /-- What the span has of the line end and of later lines. -/
  below : List Char
  /-- The text behind the span. -/
  after : List Char
  text : source.toList = above ++ left ++ (on ++ below) ++ after
  start : s.start.offset = (String.ofList (above ++ left)).utf8ByteSize
  stop : s.stop.offset = (String.ofList (above ++ left ++ (on ++ below))).utf8ByteSize
  whole : WholeLines above
  flat : '\n' ∉ left
  line : UpToLineEnd (left ++ (on ++ below) ++ after) (left ++ on ++ right)
  /-- The span goes on below only if it reaches to the end of the line. -/
  within : right = [] ∨ below = []

namespace Problem

/-- The space in front of a line without a number. -/
def margin (row : Nat) : String := repeated (gutterWidth row) ' '

/-- The number of a line, to the right of that space. -/
def numbered (row : Nat) : String :=
  repeated (gutterWidth row - (toString row).length) ' ' ++ toString row

/-- The lines that show a problem with `on`, in the line at `row` between `left` and `right`. -/
def excerptLines (file : String) (p : Problem) (row : Nat) (left on right : List Char) :
    List String :=
  let line := String.ofList (left ++ on ++ right)
  let carets := repeated left.length ' ' ++ repeated (max 1 on.length) '^'
  let wanted := ", ".intercalate (p.expected.map Kind.describe)
  [s!"error[{p.code}]: {p.message}",
    s!"{margin row}--> {file}:{row}:{left.length + 1}",
    s!"{margin row} |",
    s!"{numbered row} | {line}",
    s!"{margin row} | {carets}"] ++
  if 1 < p.expected.length then
    [s!"{margin row} = expected one of: {wanted}"]
  else []

/-- The excerpt shows the line in which the problem starts, numbered from one. The carets begin under
the first character that the problem is about, and there are as many as the line has such
characters, or one if it has none. -/
structure Shows (file source : String) (p : Problem) (q : Quote source p.span) : Prop where
  excerpt : p.excerpt file source = String.join
    ((p.excerptLines file (q.above.count '\n' + 1) q.left q.on q.right).map (· ++ "\n"))
  /-- The code and the carets under it begin in the same column. -/
  flush : (numbered (q.above.count '\n' + 1)).length = (margin (q.above.count '\n' + 1)).length

theorem length_numbered (row : Nat) : (numbered row).length = (margin row).length := by
  have fits : (toString row).length ≤ gutterWidth row := Nat.le_max_right _ _
  simp only [numbered, margin, repeated, String.length_append, String.length_ofList,
    List.length_replicate]
  omega

theorem excerpt_eq {file source : String} {p : Problem} {left on right : List Char}
    (column : p.span.start.column = left.length)
    (line : Text.line p.span.start.line source.toList = left ++ on ++ right)
    (carets : caretCount p.span (left ++ on ++ right) = max 1 on.length) :
    p.excerpt file source = String.join
      ((p.excerptLines file (p.span.start.line + 1) left on right).map (· ++ "\n")) := by
  have same : ∀ text : String, toString text = text := fun _ => rfl
  have bar : " |\n" = " |" ++ "\n" := by decide
  unfold excerpt excerptLines
  simp only [line, column, carets, bar]
  split <;> simp [String.join, numbered, margin, same, String.append_assoc]

end Problem

/-! ## Spans -/

namespace Span

variable {source : String} {s : Span}

theorem exists_parts (start : s.start.Clear source) (stop : s.stop.Clear source)
    (le : s.start.offset ≤ s.stop.offset) : ∃ before under after,
      source.toList = before ++ under ++ after ∧ s.start = .afterAll .origin before ∧
        s.stop = s.start.afterAll under ∧ Seam before (under ++ after) ∧ Seam under after := by
  obtain ⟨before, rest, split, start, seam⟩ := start
  obtain ⟨passed, after, split', stop, seam'⟩ := stop
  rw [start, stop, Position.offset_afterAll, Position.offset_afterAll] at le
  obtain ⟨under, rfl⟩ := Position.exists_between (split.symm.trans split') (by omega)
  have rest : rest = under ++ after := by
    rw [split, List.append_assoc] at split'
    exact List.append_cancel_left split'
  exact ⟨before, under, after, split', start, by rw [stop, start, Position.afterAll_append],
    rest ▸ seam, seam'.of_append⟩

/-- A span whose ends do not lie inside line ends is shown in its line, over what that line has of
it. -/
theorem exists_quote (start : s.start.Clear source) (stop : s.stop.Clear source)
    (le : s.start.offset ≤ s.stop.offset) : ∃ q : Quote source s,
      s.start.line = q.above.count '\n' ∧ s.start.column = q.left.length ∧
        Text.line s.start.line source.toList = q.left ++ q.on ++ q.right ∧
        Problem.caretCount s (q.left ++ q.on ++ q.right) = max 1 q.on.length := by
  obtain ⟨before, under, after, text, start, stop, seam, ends⟩ := exists_parts start stop le
  obtain ⟨above, left, rfl, whole, flat⟩ := Text.exists_wholeLines before
  obtain ⟨on, below, right, rfl, share, within⟩ := Text.exists_on ends
  have line : s.start.line = above.count '\n' := by
    rw [start, Position.line_origin, List.count_append, List.count_eq_zero_of_not_mem flat,
      Nat.add_zero]
  have column : s.start.column = left.length := by
    rw [start, Position.afterAll_append, Position.column_of_flat flat,
      Position.column_of_wholeLines whole, Nat.zero_add]
  have shown : Text.firstLine (left ++ (on ++ below) ++ after) = left ++ on ++ right := by
    rw [List.append_assoc, Text.firstLine_append flat seam.of_append, share, List.append_assoc]
  have here : Text.line s.start.line source.toList = left ++ on ++ right := by
    rw [line, text, List.append_assoc, List.append_assoc, Text.line_append whole,
      ← List.append_assoc, shown]
  have carets : Problem.caretCount s (left ++ on ++ right) = max 1 on.length := by
    rw [Problem.caretCount, stop]
    rcases within with ⟨flat, none⟩ | ⟨feed, none⟩
    · rw [if_pos (Position.line_eq_iff.mpr flat), Position.column_of_flat flat, none,
        List.append_nil, Nat.add_sub_cancel_left]
    · rw [if_neg fun same => Position.line_eq_iff.mp same feed, column, none, List.append_nil,
        List.length_append, Nat.add_sub_cancel_left]
  refine ⟨⟨above, left, on, right, below, after, text, ?_, ?_, whole, flat, ?_, ?_⟩, line, column,
    here, carets⟩
  · rw [start, Position.offset_origin]
  · rw [stop, start, ← Position.afterAll_append, Position.offset_origin]
  · rw [← shown]
    exact Text.upToLineEnd_firstLine _
  · exact within.symm.imp And.right And.right

end Span

/-! ## Texts -/

/-- Every error has the span of a token. -/
theorem mem_scan_of_parseErrors {source : String} {e : ParseError}
    (mem : e ∈ (parse source).parseErrors) : ∃ x ∈ (scan source).1, x.span = e.span := by
  obtain ⟨front, last, tokens, -, eof, -⟩ := (scan_ended source).last
  have ends : ∃ t ∈ (scan source).1, t.kind = .eof := ⟨last, by simp [tokens], eof⟩
  obtain ⟨places, marks, -⟩ := Program.parseWithin_marks Program.maxDepth ends
  have spans : ∀ (e : ParseError) (n : Nat), e.Marks (scan source).1 n →
      (∃ x ∈ (scan source).1, x.span = e.span) ∧ e.Marks (scan source).1 n := by
    refine fun e n here => ⟨?_, here⟩
    by_cases closer : e.kind = .missingCloser
    · obtain ⟨m, -, x, found, -, same⟩ := here.opener closer
      exact ⟨x, List.mem_of_getElem? found, same⟩
    · obtain ⟨x, found, -, -, same⟩ := here.found
      exact ⟨x, List.mem_of_getElem? found, same closer⟩
  exact ((List.forall₂_and_left _ _).mp (marks.imp spans)).1 e mem

/-- **Excerpts underline the right code.** For every error of a text there is an excerpt. It shows
the line that the span of the error starts in, without its line end, and puts the carets under what
the line has of that span, or one at its start if there is nothing of it. -/
theorem parse_underlined (source file : String) : ∀ e ∈ (parse source).parseErrors,
    ∃ q : Quote source e.span, (Problem.parse e).Shows file source q := by
  intro e mem
  obtain ⟨x, token, same⟩ := mem_scan_of_parseErrors mem
  obtain ⟨start, stop⟩ := scan_clear source x token
  have le := ((scan_ended source).sliced x token).1.le
  rw [same] at start stop le
  obtain ⟨q, line, column, shown, carets⟩ := Span.exists_quote start stop le
  refine ⟨q, ?_, Problem.length_numbered _⟩
  rw [← line]
  exact Problem.excerpt_eq column shown carets

/-- The second `if` of the second line is not closed. -/
theorem parse_underlined_if :
    let source := "x = 1\r\nif a then if b then end\n"
    ∃ e ∈ (parse source).parseErrors, e.span = ⟨⟨17, 1, 10⟩, ⟨19, 1, 12⟩⟩ ∧
      ∃ q : Quote source e.span, (Problem.parse e).Shows "test.j" source q := by
  intro source
  have error : ∃ e ∈ (parse source).parseErrors, e.span = ⟨⟨17, 1, 10⟩, ⟨19, 1, 12⟩⟩ := by
    decide +kernel
  obtain ⟨e, mem, span⟩ := error
  exact ⟨e, mem, span, parse_underlined source "test.j" e mem⟩

end JassSyntax
