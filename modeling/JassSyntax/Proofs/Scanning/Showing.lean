import JassSyntax.Proofs.Scanning.Moves

/-!
# Errors that tokens show

Of a text the scanner yields tokens and reports errors. The errors could be told from the tokens:
one for each character that begins no token, and one for each end of a string or comment that is
empty, since nothing stands there that would end it. `shown` walks over the tokens and tells the
errors so, and `scan_shown` says that these are the errors that the scanner reports.
-/

namespace JassSyntax

variable {source : String} {opening : Position}

namespace ScanError

/-- A string or comment is left open by the text. -/
def isUnterminated : ScanError → Bool
  | unterminatedString _ | unterminatedBlockComment _ => true
  | unrecognizedCharacter .. | unescapedNewline _ => false

end ScanError

/-- The start of the next line, when a line end stands at the place. -/
def Position.pastLineEnd (source : String) (p : Position) : Position :=
  ⟨p.offset + (if ['\r', '\n'] <+: p.ahead source then 2 else 1), p.line + 1, 0⟩

namespace Token

/-- What the token shows to be wrong, when the last string or comment to begin before it did so at
`opening`. -/
def shows? (source : String) (opening : Position) (t : Token) : Option ScanError :=
  let left : Span := ⟨opening, Position.origin.afterAll source.toList⟩
  match t.kind with
  | .error =>
    match t.text.toList with
    | [c] => some (.unrecognizedCharacter c t.span)
    | _ => none
  | .stringEnd =>
    if t.span.isEmpty then
      if t.span.start.offset = source.utf8ByteSize then some (.unterminatedString left)
      else some (.unescapedNewline ⟨t.span.start, t.span.start.pastLineEnd source⟩)
    else none
  | .blockCommentEnd => if t.span.isEmpty then some (.unterminatedBlockComment left) else none
  | _ => none

/-- Where the last string or comment began, once the token has been passed. -/
def openingAfter (opening : Position) (t : Token) : Position :=
  match t.kind with
  | .stringStart | .blockCommentStart => t.span.start
  | _ => opening

end Token

/-- What tokens show to be wrong, in their order. -/
def shown (source : String) (opening : Position) : List Token → List ScanError
  | [] => []
  | t :: ts => (t.shows? source opening).toList ++ shown source (t.openingAfter opening) ts

/-- What the mode is inside of began at the place. -/
def ScanMode.Began (opening : Position) : ScanMode → Prop
  | .normal => True
  | .inBlockComment start | .inString _ start => start = opening

namespace Scanner

variable {s s' e : Scanner} {t : Token} {ts : List Token}

/-! ## Where the scanner stands -/

theorem At.here_of_rest (at_ : s.At source) (none : s.rest = []) :
    s.here = Position.origin.afterAll source.toList := by
  obtain ⟨before, split, here⟩ := at_
  rw [split, none, List.append_nil, here]

theorem At.offset_add (at_ : s.At source) :
    s.here.offset + String.utf8Len s.rest = source.utf8ByteSize := by
  obtain ⟨before, split, here⟩ := at_
  rw [here, Position.offset_afterAll, ← String.utf8Len_toList, split, String.utf8Len_append]
  exact congrArg (· + _) (Nat.zero_add _)

theorem isEmpty_yield_of_pos {kind : Kind} {n : Nat} (some : s.rest ≠ []) (pos : 0 < n) :
    (s.yield kind n).1.span.isEmpty = false := by
  have more : String.utf8Len (s.rest.take n) ≠ 0 := by
    rw [Ne, String.utf8Len_eq_zero, List.take_eq_nil_iff, not_or]
    exact ⟨Nat.ne_of_gt pos, some⟩
  refine Bool.eq_false_iff.mpr fun empty => more ?_
  have same : s.here.offset = (s.here.afterAll (s.rest.take n)).offset := beq_iff_eq.mp empty
  rw [Position.offset_afterAll] at same
  omega

theorem lineEndSpan_eq (at_ : s.At source) :
    s.lineEndSpan = ⟨s.here, s.here.pastLineEnd source⟩ := by
  rw [lineEndSpan, Position.pastLineEnd, at_.ahead]
  simp only [List.isPrefixOf_iff_prefix]

/-! ## One step -/

/-- The step reports what its token shows. After a string or comment that is left open nothing is
left. -/
structure Tells (source : String) (opening : Position) (s : Scanner) (t : Token) (s' : Scanner) :
    Prop where
  errors : s'.errors.toList = s.errors.toList ++ (t.shows? source opening).toList
  last : ∀ x ∈ t.shows? source opening, x.isUnterminated = true → s'.rest = [] ∧ s'.mode = .normal

theorem Tells.quiet (same : s'.errors = s.errors) (none : t.shows? source opening = none) :
    Tells source opening s t s' where
  errors := by rw [same, none]; exact (List.append_nil _).symm
  last x shows := by rw [none] at shows; cases shows

theorem Tells.told {x : ScanError} (errors : s'.errors = s.errors.push x)
    (shows : t.shows? source opening = some x)
    (last : x.isUnterminated = true → s'.rest = [] ∧ s'.mode = .normal) :
    Tells source opening s t s' where
  errors := by rw [errors, shows, Array.toList_push]; rfl
  last y shown := by rw [shows] at shown; cases shown; exact last

theorem shows?_of_plain (error : t.kind ≠ .error) (string : t.kind ≠ .stringEnd)
    (comment : t.kind ≠ .blockCommentEnd) : t.shows? source opening = none := by
  unfold Token.shows?
  split <;> first | contradiction | rfl

namespace ReadsLexeme

variable {c : Char} {cs : List Char} {k : Kind} {n : Nat}

theorem kind (read : ReadsLexeme s t s' c cs k n) : t.kind = k := by
  rw [read.token]
  rfl

theorem text_of_error (read : ReadsLexeme s t s' c cs k n) (error : k = .error) :
    t.text.toList = [c] := by
  have other : Kind.error ∉ Lexeme.ordinary := by decide
  rcases read.leading ▸ Lexeme.leading_cases s.skipBlanks.afterOperand (c :: cs) with
    ordinary | found | ⟨found, _⟩ | ⟨found, _⟩
  · cases error
    exact absurd ordinary other
  · cases found
    rw [read.token, toList_text_yield, read.ahead]
    rfl
  all_goals
    cases found
    cases error

theorem not_end (read : ReadsLexeme s t s' c cs k n) : k ≠ .stringEnd ∧ k ≠ .blockCommentEnd := by
  have plain : ∀ k ∈ Lexeme.beginnings, k ≠ .stringEnd ∧ k ≠ .blockCommentEnd := by decide
  rcases read.leading ▸ Lexeme.leading_kind s.skipBlanks.afterOperand (c :: cs) with
    mem | ⟨string, _⟩
  · exact plain k mem
  · rw [show k = .stringStart from string]
    decide

end ReadsLexeme

theorem stepNormal_tells (step : s.stepNormal = some (t, s')) : Tells source opening s t s' := by
  rcases eof_or_readsLexeme step with ⟨eof, -, -, same⟩ | ⟨c, cs, k, n, read⟩
  · refine .quiet same (shows?_of_plain ?_ ?_ ?_) <;> rw [eof] <;> exact Kind.noConfusion
  by_cases error : k = .error
  · refine .told (read.errors.trans (if_pos error)) ?_ Bool.noConfusion
    unfold Token.shows?
    rw [read.kind, error, read.text_of_error error]
  · obtain ⟨string, comment⟩ := read.not_end
    refine .quiet (read.errors.trans (if_neg error)) (shows?_of_plain ?_ ?_ ?_) <;> rwa [read.kind]

/-- An end that stands in the text shows nothing. -/
theorem shows?_of_full (ends : t.kind = .stringEnd ∨ t.kind = .blockCommentEnd)
    (full : t.span.isEmpty = false) : t.shows? source opening = none := by
  have filled : ¬ t.span.isEmpty = true := by simp [full]
  unfold Token.shows?
  rcases ends with kind | kind <;> rw [kind] <;> exact if_neg filled

theorem stepComment_tells (at_ : s.At source) :
    Tells source opening s (s.stepComment opening).1 (s.stepComment opening).2 := by
  unfold stepComment
  split
  · next none =>
    refine .told rfl ?_ fun _ => ⟨none, rfl⟩
    rw [at_.here_of_rest none]
    exact if_pos (Span.isEmpty_empty s.here)
  · next rest closing =>
    refine .quiet rfl (shows?_of_full (.inr rfl) (isEmpty_yield_of_pos ?_ (by decide)))
    exact closing ▸ List.cons_ne_nil _ _
  · exact .quiet rfl rfl

theorem stepString_tells (at_ : s.At source) (quote : Char) :
    Tells source opening s (s.stepString quote opening).1 (s.stepString quote opening).2 := by
  have empty := Span.isEmpty_empty s.here
  have offset := at_.offset_add
  unfold stepString
  split
  · next none =>
    rw [none] at offset
    refine .told rfl ?_ fun _ => ⟨none, rfl⟩
    rw [at_.here_of_rest none]
    exact (if_pos empty).trans (if_pos offset)
  next c cs ahead =>
  split
  · have inner : s.here.offset ≠ source.utf8ByteSize := by
      have size := c.utf8Size_pos
      rw [ahead, String.utf8Len_cons] at offset
      omega
    refine .told rfl ?_ Bool.noConfusion
    rw [lineEndSpan_eq at_]
    exact (if_pos empty).trans (if_neg inner)
  split
  · refine .quiet rfl (shows?_of_full (.inl rfl) (isEmpty_yield_of_pos ?_ (by decide)))
    exact ahead ▸ List.cons_ne_nil _ _
  · exact .quiet rfl rfl

theorem step_tells (at_ : s.At source) (began : s.mode.Began opening)
    (step : s.step = some (t, s')) : Tells source opening s t s' := by
  unfold Scanner.step at step
  split at step
  · exact stepNormal_tells step
  · next mode =>
    rw [mode] at began
    cases began
    have tells : Tells source opening s _ _ := stepComment_tells at_
    rwa [Option.some.inj step] at tells
  · next quote _ mode =>
    rw [mode] at began
    cases began
    have tells : Tells source opening s _ _ := stepString_tells at_ quote
    rwa [Option.some.inj step] at tells

/-- A token that neither belongs to the inside of a string or comment nor ends the input is read as
a lexeme. -/
theorem readsLexeme_of_outside (step : s.step = some (t, s')) (outside : t.kind.isInside = false)
    (going : t.kind ≠ .eof) : ∃ c cs k n, ReadsLexeme s t s' c cs k n := by
  have mode : s.mode = .normal := by
    by_contra inside
    rw [(step_passes step).inside.mpr inside] at outside
    cases outside
  unfold Scanner.step at step
  rw [mode] at step
  exact (eof_or_readsLexeme step).resolve_left fun eof => going eof.1

/-- A token that is an error is one character. -/
theorem single_of_error (step : s.step = some (t, s')) (error : t.kind = .error) :
    ∃ c, t.text.toList = [c] := by
  obtain ⟨c, _, _, _, read⟩ :=
    readsLexeme_of_outside step (by rw [error]; rfl) (by rw [error]; exact Kind.noConfusion)
  exact ⟨c, read.text_of_error (read.kind.symm.trans error)⟩

theorem isEmpty_of_outside (step : s.step = some (t, s')) (outside : t.kind.isInside = false)
    (going : t.kind ≠ .eof) : t.span.isEmpty = false := by
  obtain ⟨c, cs, k, n, read⟩ := readsLexeme_of_outside step outside going
  have pos : 0 < n := by
    have taken := Lexeme.leading_pos s.skipBlanks.afterOperand (c :: cs)
    rwa [read.leading] at taken
  rw [read.token]
  exact isEmpty_yield_of_pos (by rw [read.ahead]; exact List.cons_ne_nil c cs) pos

/-! ## All steps -/

/-- Only insides, the ends of strings and comments, and the end of input can be without width. -/
theorem Steps.isEmpty_of_outside (steps : s.Steps ts e) :
    ∀ t ∈ ts, t.kind.isInside = false → t.kind ≠ .eof → t.span.isEmpty = false := by
  induction steps with
  | refl => exact fun _ mem => by cases mem
  | cons first _ ih => exact List.forall_mem_cons.mpr ⟨Scanner.isEmpty_of_outside first, ih⟩

theorem Steps.single_of_error (steps : s.Steps ts e) :
    ∀ t ∈ ts, t.kind = .error → ∃ c, t.text.toList = [c] := by
  induction steps with
  | refl => exact fun _ mem => by cases mem
  | cons first _ ih => exact List.forall_mem_cons.mpr ⟨Scanner.single_of_error first, ih⟩

theorem Moves.began (moves : Moves s t s') (before : s.mode.Began opening) :
    s'.mode.Began (t.openingAfter opening) := by
  cases moves with
  | stay _ _ _ outside | leave _ _ outside =>
      rw [outside]
      trivial
  | enter _ opens =>
      cases mode : s'.mode with
      | normal => trivial
      | inBlockComment =>
          rw [mode] at opens
          obtain ⟨kind, -, start⟩ := opens
          rw [Token.openingAfter, kind]
          exact start.symm
      | inString =>
          rw [mode] at opens
          obtain ⟨kind, -, -, start⟩ := opens
          rw [Token.openingAfter, kind]
          exact start.symm
  | hold holds _ _ stays =>
      rw [stays]
      cases mode : s.mode with
      | normal => trivial
      | inBlockComment | inString =>
          rw [mode] at holds before
          rw [Token.openingAfter, holds.1]
          exact before

/-- The scanner stands in the text, and what it is inside of began at the place. -/
structure Follows (source : String) (opening : Position) (s : Scanner) : Prop where
  at_ : s.At source
  quoted : s.mode.Quoted
  began : s.mode.Began opening

theorem follows_ofString (source : String) : Follows source opening (ofString source) :=
  ⟨at_ofString source, ScanMode.quoted_normal, trivial⟩

theorem Follows.step (follows : Follows source opening s) (step : s.step = some (t, s')) :
    Follows source (t.openingAfter opening) s' := by
  have moves := step_moves follows.quoted step
  exact ⟨(step_stepped follows.at_ step).yields.at_, moves.quoted follows.quoted,
    moves.began follows.began⟩

theorem Follows.tells (follows : Follows source opening s) (step : s.step = some (t, s')) :
    Tells source opening s t s' := step_tells follows.at_ follows.began step

theorem Steps.reports (steps : s.Steps ts e) (follows : Follows source opening s) :
    e.errors.toList = s.errors.toList ++ shown source opening ts := by
  induction steps generalizing opening with
  | refl s => exact (List.append_nil _).symm
  | cons first rest ih =>
      rw [ih (follows.step first), (follows.tells first).errors, List.append_assoc]
      rfl

/-- At the end of the text, and outside of strings and comments, nothing more is shown. -/
theorem Steps.shown_of_rest (steps : s.Steps ts e) (rest : s.rest = []) (mode : s.mode = .normal) :
    shown source opening ts = [] := by
  induction steps generalizing opening with
  | refl => rfl
  | @cons s m e t ts first _ ih =>
      unfold Scanner.step at first
      rw [mode] at first
      rcases eof_or_readsLexeme first with ⟨eof, stays, none, _⟩ | ⟨c, cs, _, _, read⟩
      · have quiet : t.shows? source opening = Option.none := by
          rw [Token.shows?, eof]
        rw [shown, quiet]
        exact ih none (stays.trans mode)
      · have ahead := read.ahead
        rw [skipBlanks, rest] at ahead
        cases ahead

/-- Whatever comes before the last error has its end in the text. -/
theorem Steps.terminated (steps : s.Steps ts e) (follows : Follows source opening s) :
    ∀ x ∈ (shown source opening ts).dropLast, x.isUnterminated = false := by
  induction steps generalizing opening with
  | refl => exact fun _ mem => by cases mem
  | @cons s m e t ts first rest ih =>
      have later := ih (follows.step first)
      rw [shown]
      cases shows : t.shows? source opening with
      | none => exact later
      | some y =>
          cases more : shown source (t.openingAfter opening) ts with
          | nil => exact fun _ mem => by cases mem
          | cons z zs =>
              rw [more] at later
              refine List.forall_mem_cons.mpr ⟨Bool.eq_false_iff.mpr fun open_ => ?_, later⟩
              obtain ⟨none, outside⟩ := (follows.tells first).last y shows open_
              rw [rest.shown_of_rest none outside] at more
              cases more

end Scanner

/-! ## Texts -/

/-- **Scan errors are what the tokens show.** The errors of a text are those that its tokens show,
in their order, and each token that is an error shows its one character. A string or comment that
the text leaves open is reported last, so there is at most one. -/
theorem scan_shown (source : String) :
    (scan source).2 = shown source .origin (scan source).1 ∧
      (∀ t ∈ (scan source).1, t.kind = .error → ∃ c, t.text.toList = [c]) ∧
      ∀ x ∈ (scan source).2.dropLast, x.isUnterminated = false := by
  obtain ⟨last, steps, -, -, errors⟩ := scan_steps source
  have follows : Scanner.Follows source .origin _ := Scanner.follows_ofString source
  have same : (scan source).2 = shown source .origin (scan source).1 := by
    rw [errors, steps.reports follows]
    rfl
  refine ⟨same, steps.single_of_error, ?_⟩
  rw [same]
  exact steps.terminated follows

/-- A text with a character that begins no token, a string that its line leaves open and a string
that the text leaves open. -/
example : (scan "?'a\n'b").2 =
    [.unrecognizedCharacter '?' ⟨⟨0, 0, 0⟩, ⟨1, 0, 1⟩⟩, .unescapedNewline ⟨⟨3, 0, 3⟩, ⟨4, 1, 0⟩⟩,
      .unterminatedString ⟨⟨4, 1, 0⟩, ⟨6, 1, 2⟩⟩] := by decide +kernel

end JassSyntax
