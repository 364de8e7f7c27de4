import JassSyntax.Proofs.Scanning.Counting
import JassSyntax.Proofs.Scanning.Itemizing
import JassSyntax.Proofs.Scanning.Showing

/-!
# Where scan errors lie

A scan error reaches from one place of the text to another: over a character that begins no token,
over all that a string or comment without its end takes in, or over the line end that cuts a string
short. The scanner counts its position on by the characters that it passes, but the stop of such a
line end is reckoned in advance, as the start of the next line. A carriage return alone cuts a
string short and starts no line. There, and nowhere else, the stop of an error has not the line and
column that the scanner itself comes to at that offset.
-/

namespace JassSyntax

variable {source : String} {opening : Position}

/-- A carriage return stands at the place, and no line feed behind it. -/
def Position.AtBareReturn (source : String) (p : Position) : Prop :=
  ∃ rest, p.ahead source = '\r' :: rest ∧ rest.head? ≠ some '\n'

namespace ScanError

/-- The error is about a string that a carriage return alone cuts short. -/
def CutByReturn (source : String) (e : ScanError) : Prop :=
  ∃ span, e = .unescapedNewline span ∧ span.start.AtBareReturn source

theorem cutByReturn_newline {span : Span} :
    (unescapedNewline span).CutByReturn source ↔ span.start.AtBareReturn source := by
  constructor
  · rintro ⟨_, ⟨⟩, bare⟩
    exact bare
  · intro bare
    exact ⟨span, rfl, bare⟩

/-- The error reaches to the place, or to the start of a next line there that the text does not
have. -/
structure Reaches (source : String) (e : ScanError) (p : Position) : Prop where
  on : Span.On source ⟨e.span.start, p⟩
  stop : ¬ e.CutByReturn source ∧ e.span.stop = p ∨
    e.CutByReturn source ∧ e.span.stop = ⟨p.offset, p.line + 1, 0⟩

theorem Reaches.of_other {e : ScanError} (on : e.span.On source)
    (other : ∀ span, e ≠ .unescapedNewline span) : e.Reaches source e.span.stop where
  on := on
  stop := by
    refine .inl ⟨?_, rfl⟩
    rintro ⟨span, same, _⟩
    exact other span same

end ScanError

open ScanError (Reaches)

/-! ## Line ends -/

/-- The start of the line behind a line end, seen from the characters that end it. -/
theorem Position.pastLineEnd_cases {p : Position} {c : Char} {rest : List Char}
    (ahead : p.ahead source = c :: rest) (lineEnd : Lexeme.isLineEnd c = true) :
    ∃ taken behind, c :: rest = taken ++ behind ∧
      (¬ p.AtBareReturn source ∧ p.pastLineEnd source = p.afterAll taken ∨
        p.AtBareReturn source ∧ p.pastLineEnd source =
          ⟨(p.afterAll taken).offset, (p.afterAll taken).line + 1, 0⟩) := by
  have apart : p.AtBareReturn source ↔ c = '\r' ∧ rest.head? ≠ some '\n' := by
    constructor
    · rintro ⟨more, here, bare⟩
      rw [ahead] at here
      cases here
      exact ⟨rfl, bare⟩
    · rintro ⟨rfl, bare⟩
      exact ⟨rest, ahead, bare⟩
  rw [apart, pastLineEnd, ahead]
  rcases Lexeme.isLineEnd_iff.mp lineEnd with rfl | rfl
  · by_cases feed : rest.head? = some '\n'
    · obtain ⟨more, rfl⟩ := List.head?_eq_some_iff.mp feed
      refine ⟨['\r', '\n'], more, rfl, .inl ⟨fun bare => bare.2 rfl, ?_⟩⟩
      rw [if_pos ⟨more, rfl⟩]
      rfl
    · refine ⟨['\r'], rest, rfl, .inr ⟨⟨rfl, feed⟩, ?_⟩⟩
      rw [if_neg]
      · rfl
      · rintro ⟨more, same⟩
        cases same
        exact feed rfl
  · refine ⟨['\n'], rest, rfl, .inl ⟨fun bare => absurd bare.1 (by decide), ?_⟩⟩
    rw [if_neg]
    · rfl
    · rintro ⟨more, same⟩
      cases same

namespace Scanner

variable {s s' e : Scanner} {t : Token} {ts : List Token}

/-- An end of a string that takes nothing stands before a line end, or where the text ends. -/
theorem Moves.lineEnd (moves : Moves s t s') (kind : t.kind = .stringEnd) (empty : t.text = "") :
    ∀ c ∈ s.rest.head?, Lexeme.isLineEnd c = true := by
  intro c head
  rw [Option.mem_def] at head
  cases moves with
  | stay _ inside =>
      rw [kind] at inside
      cases inside
  | enter _ opens =>
      have leads := opens.leadsInside
      rw [kind] at leads
      cases leads
  | hold holds =>
      have leads := holds.leadsInside
      rw [kind] at leads
      cases leads
  | leave closes ends =>
      cases mode : s.mode with
      | normal => exact absurd mode closes.ne_normal
      | inBlockComment =>
          rw [mode] at closes
          exact absurd (closes.1.symm.trans kind) Kind.noConfusion
      | inString quote =>
          rw [mode] at closes ends
          have none : [] = if s.rest.head? = some quote then [quote] else [] := by
            rw [← closes.2, empty]
            rfl
          rw [head] at none
          have other : c ≠ quote := by
            rintro rfl
            rw [if_pos rfl] at none
            cases none
          exact Lexeme.isLineEnd_iff.mpr ((ends c head).resolve_left other)

/-- A token without width has no text. -/
theorem Yields.text_of_isEmpty (yields : Yields source s t s') (empty : t.span.isEmpty = true) :
    t.text = "" := by
  have text := yields.text
  rw [yields.on.slice?, Option.some_inj] at text
  rw [← text, Span.text, beq_iff_eq.mp empty]
  simp [String.Pos.Raw.extract]

/-! ## One step -/

/-- From an opening in the text to the end of the text. -/
theorem reaches_end (placed : opening.Placed source) :
    Span.On source ⟨opening, Position.origin.afterAll source.toList⟩ where
  start := placed
  stop := ⟨source.toList, [], (List.append_nil _).symm, rfl⟩
  le := by
    rw [Position.offset_afterAll, String.utf8Len_toList]
    exact Nat.le_trans placed.offset_le (Nat.le_add_left _ _)

theorem newline_reaches (at_ : s.At source) {c : Char} {rest : List Char}
    (ahead : s.rest = c :: rest) (lineEnd : Lexeme.isLineEnd c = true) :
    ∃ p, (ScanError.unescapedNewline ⟨s.here, s.here.pastLineEnd source⟩).Reaches source p := by
  obtain ⟨taken, behind, split, stop⟩ :=
    Position.pastLineEnd_cases (at_.ahead.trans ahead) lineEnd
  obtain ⟨before, whole, here⟩ := at_
  rw [ahead, split, ← List.append_assoc] at whole
  have on := Span.on_of_append whole
  rw [Position.afterAll_append, ← here] at on
  refine ⟨s.here.afterAll taken, on, ?_⟩
  rw [ScanError.cutByReturn_newline]
  exact stop

/-- What the token of a step shows lies in the text. -/
theorem Follows.reaches (follows : Follows source opening s) (placed : opening.Placed source)
    (step : s.step = some (t, s')) : ∀ x ∈ t.shows? source opening, ∃ p, x.Reaches source p := by
  have yields := (step_stepped follows.at_ step).yields
  intro x shows
  unfold Token.shows? at shows
  split at shows
  · split at shows
    · cases shows
      exact ⟨_, .of_other yields.on fun _ => ScanError.noConfusion⟩
    · cases shows
  -- An end of a string without width stands where the text ends, or in front of a line end.
  · next kind =>
    split at shows
    · next empty =>
      split at shows
      · cases shows
        exact ⟨_, .of_other (reaches_end placed) fun _ => ScanError.noConfusion⟩
      · next inner =>
        cases shows
        have passes := step_passes step
        have start : t.span.start = s.here := by
          have inside := passes.inside.mp (by rw [kind]; rfl)
          rw [passes.start, gap_of_inside inside, Position.afterAll_nil]
        have lineEnd := (step_moves follows.quoted step).lineEnd kind (yields.text_of_isEmpty empty)
        have offset := follows.at_.offset_add
        rw [start] at inner ⊢
        cases ahead : s.rest with
        | nil =>
            rw [ahead] at offset
            exact absurd offset inner
        | cons c rest =>
            exact newline_reaches follows.at_ ahead (lineEnd c (by rw [ahead]; rfl))
    · cases shows
  · split at shows
    · cases shows
      exact ⟨_, .of_other (reaches_end placed) fun _ => ScanError.noConfusion⟩
    · cases shows
  · cases shows

/-! ## All steps -/

theorem Steps.reaches (steps : s.Steps ts e) (follows : Follows source opening s)
    (placed : opening.Placed source) :
    ∀ x ∈ shown source opening ts, ∃ p, x.Reaches source p := by
  induction steps generalizing opening with
  | refl => exact fun _ mem => by cases mem
  | @cons s m e t ts first rest ih =>
      have start := (step_stepped follows.at_ first).yields.on.start
      have next : (t.openingAfter opening).Placed source := by
        unfold Token.openingAfter
        split
        · exact start
        · exact start
        · exact placed
      intro x mem
      rcases List.mem_append.mp mem with here | later
      · exact follows.reaches placed first x (Option.mem_toList.mp here)
      · exact ih (follows.step first) next x later

end Scanner

/-! ## Texts -/

/-- **Positions of scan errors.** Every error of a text reaches from one place of the text to
another, and both ends count the lines and columns before them, with one exception: where a string
is cut short by a carriage return alone, the error reaches to that place by its offset, but is said
to end at the start of the next line, which the scanner does not begin there. -/
theorem scan_located (source : String) : ∀ e ∈ (scan source).2, e.span.start.Counts source ∧
    ∃ p : Position, p.Counts source ∧ e.span.start.offset ≤ p.offset ∧
      (¬ e.CutByReturn source ∧ e.span.stop = p ∨
        e.CutByReturn source ∧ e.span.stop = ⟨p.offset, p.line + 1, 0⟩) := by
  intro e mem
  obtain ⟨last, steps, -, -, errors⟩ := scan_steps source
  have follows : Scanner.Follows source .origin _ := Scanner.follows_ofString source
  rw [errors, steps.reports follows] at mem
  obtain ⟨p, reaches⟩ := steps.reaches follows (Position.placed_origin source) e mem
  exact ⟨reaches.on.start.counts, p, reaches.on.stop.counts, reaches.on.le, reaches.stop⟩

/-- The text of a quote and a carriage return has one line. The error in it is said to end on a
second one. -/
theorem scan_located_return : ∃ e ∈ (scan "'\r").2, ∃ p : Position, p.Counts "'\r" ∧ p.offset = 2 ∧
    e.span.stop = ⟨2, p.line + 1, 0⟩ ∧ ¬ e.span.stop.Counts "'\r" := by
  have error : .unescapedNewline ⟨⟨1, 0, 1⟩, ⟨2, 1, 0⟩⟩ ∈ (scan "'\r").2 := by decide +kernel
  have single : ¬ Position.Counts "'\r" ⟨2, 1, 0⟩ := by
    rintro ⟨before, after, split, -, line, -⟩
    have fewer : before.count '\n' ≤ "'\r".toList.count '\n' := by
      rw [split]
      exact (List.sublist_append_left before after).count_le _
    rw [← line] at fewer
    exact absurd fewer (by decide +kernel)
  obtain ⟨-, p, counts, -, ⟨-, stop⟩ | ⟨-, stop⟩⟩ := scan_located "'\r" _ error
  · rw [← stop] at counts
    exact absurd counts single
  · have offset : 2 = p.offset := congrArg Position.offset stop
    exact ⟨_, error, p, counts, offset.symm, offset ▸ stop, single⟩

end JassSyntax
