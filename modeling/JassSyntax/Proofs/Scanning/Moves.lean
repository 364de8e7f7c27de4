import JassSyntax.Proofs.Layout.Pieces
import JassSyntax.Proofs.Layout.Lexemes

/-!
# What a scanner moves through

A scanner outside strings and block comments stays there with a token, or opens one of them. Inside
it takes what the string or comment holds, if there is anything of it, and then its end. So there
are four moves, and `Scanner.step_moves` says that each step is one of them.
-/

namespace JassSyntax

/-! ## Insides -/

namespace Lexeme

/-- The characters that no backslash takes along, as a string is read from its left end. A backslash
takes the next character, or both characters of a line end of two. -/
def bare : List Char → List Char
  | [] => []
  | '\\' :: '\r' :: '\n' :: cs => bare cs
  | '\\' :: _ :: cs => bare cs
  | c :: cs => c :: bare cs

theorem bare_cons {c : Char} {cs : List Char} (alone : c = '\\' → cs = []) :
    bare (c :: cs) = c :: bare cs := by
  rw [bare]
  · rintro ds rfl rfl
    cases alone rfl
  · rintro d ds rfl rfl
    cases alone rfl

/-- Inside a string neither its quote nor a line end stands bare. -/
theorem bare_stringContent (quote : Char) (cs : List Char) :
    ∀ c ∈ bare (cs.take (stringContent quote cs)), ¬(c = quote ∨ isLineEnd c = true) := by
  fun_induction stringContent quote cs with
  | case1 => simp [bare]
  | case2 cs ih =>
      rw [Nat.add_comm, List.take_succ_cons, List.take_succ_cons, List.take_succ_cons, bare]
      exact ih
  | case3 d cs single ih =>
      rw [Nat.add_comm, List.take_succ_cons, List.take_succ_cons, bare]
      · exact ih
      · rintro ds rfl taken
        obtain ⟨e, es, rfl⟩ := List.exists_cons_of_ne_nil (l := cs) (by rintro rfl; simp at taken)
        cases n : stringContent quote (e :: es) with
        | zero => simp [n] at taken
        | succ n =>
            rw [n, List.take_succ_cons] at taken
            cases taken
            exact single es rfl rfl
  | case4 => simp [bare]
  | case5 d cs single escape stop ih =>
      rw [Nat.add_comm, List.take_succ_cons, bare_cons]
      · exact List.forall_mem_cons.mpr ⟨stop, ih⟩
      · rintro rfl
        cases cs with
        | nil => rfl
        | cons e es => exact absurd rfl (escape e es rfl)

/-- The closing of a block comment does not occur inside of it. -/
theorem infix_commentContent (cs : List Char) :
    ¬ ['*', '/'] <:+: cs.take (commentContent cs) := by
  fun_induction commentContent cs with
  | case1 => simp
  | case2 => simp
  | case3 c cs go ih =>
      rw [Nat.add_comm, List.take_succ_cons, List.infix_cons_iff, not_or]
      refine ⟨fun closes => ?_, ih⟩
      obtain ⟨rfl, rest⟩ := List.cons_prefix_cons.mp closes
      cases cs with
      | nil => simp at rest
      | cons d ds =>
          cases n : commentContent (d :: ds) with
          | zero => simp [n] at rest
          | succ n =>
              rw [n, List.take_succ_cons] at rest
              obtain ⟨rfl, -⟩ := List.cons_prefix_cons.mp rest
              exact go ⟨rfl, rfl⟩

theorem commentContent_eq_zero_iff {cs : List Char} :
    commentContent cs = 0 ↔ cs = [] ∨ ['*', '/'] <+: cs := by
  cases cs with
  | nil => simp [commentContent]
  | cons c cs =>
      have closing : ['*', '/'] <+: c :: cs ↔ c = '*' ∧ cs.head? = some '/' := by
        cases cs <;> simp [List.cons_prefix_cons, eq_comm]
      rw [closing, commentContent]
      split
      · next closes => simpa using closes
      · next go => simpa using not_and.mp go

theorem stops_of_stringContent_eq_zero {quote : Char} {cs : List Char}
    (none : stringContent quote cs = 0) : ∀ c ∈ cs.head?, c = quote ∨ isLineEnd c = true := by
  intro c head
  obtain ⟨rest, rfl⟩ := List.head?_eq_some_iff.mp head
  by_contra go
  exact absurd none (Nat.ne_of_gt (stringContent_pos go rest))

theorem isLineEnd_iff {c : Char} : isLineEnd c = true ↔ c = '\r' ∨ c = '\n' := by
  simp [isLineEnd, or_comm]

end Lexeme

/-! ## Places -/

/-- What the text has from the place on. -/
def Position.ahead (source : String) (p : Position) : List Char :=
  (Span.text ⟨p, origin.afterAll source.toList⟩ source).toList

theorem Scanner.At.ahead {source : String} {s : Scanner} (at_ : s.At source) :
    s.here.ahead source = s.rest := by
  obtain ⟨before, split, here⟩ := at_
  have whole : source.toList = before ++ s.rest ++ [] := by rw [split, List.append_nil]
  rw [Position.ahead, here, split, Span.text_of_append whole, String.toList_ofList]

/-! ## Modes and the tokens that belong to them -/

namespace ScanMode

/-- The token opens what the mode is inside of. -/
def Opens (t : Token) : ScanMode → Prop
  | .normal => False
  | .inBlockComment start => t.kind = .blockCommentStart ∧ t.text = "/*" ∧ t.span.start = start
  | .inString quote start =>
    t.kind = .stringStart ∧ t.text.toList = [quote] ∧ Lexeme.isQuote quote = true ∧
      t.span.start = start

/-- What stands ahead ends what the mode is inside of: its closing or quote, a line end in a string,
or the end of the text. -/
def Ends (ahead : List Char) : ScanMode → Prop
  | .normal => False
  | .inBlockComment _ => ahead = [] ∨ ['*', '/'] <+: ahead
  | .inString quote _ => ∀ c ∈ ahead.head?, c = quote ∨ c = '\r' ∨ c = '\n'

/-- The token is what a comment or string holds. It is not empty, and nothing inside it would have
ended the comment or string before. -/
def Holds (t : Token) : ScanMode → Prop
  | .normal => False
  | .inBlockComment _ =>
    t.kind = .blockCommentContent ∧ t.text ≠ "" ∧ ¬ ['*', '/'] <:+: t.text.toList
  | .inString quote _ =>
    t.kind = .stringContent ∧ t.text ≠ "" ∧
      ∀ c ∈ Lexeme.bare t.text.toList, c ≠ quote ∧ c ≠ '\r' ∧ c ≠ '\n'

/-- The token ends what the mode is inside of. Its text is the closing or the quote if that stands
ahead, and empty otherwise. -/
def Closes (ahead : List Char) (t : Token) : ScanMode → Prop
  | .normal => False
  | .inBlockComment _ =>
    t.kind = .blockCommentEnd ∧ t.text = if ['*', '/'] <+: ahead then "*/" else ""
  | .inString quote _ =>
    t.kind = .stringEnd ∧ t.text.toList = if ahead.head? = some quote then [quote] else []

/-- A string is left at a quote. -/
def Quoted (mode : ScanMode) : Prop :=
  ∀ quote start, mode = .inString quote start → Lexeme.isQuote quote = true

theorem Opens.quoted {t : Token} {mode : ScanMode} (opens : mode.Opens t) : mode.Quoted := by
  rintro quote start rfl
  exact opens.2.2.1

theorem quoted_normal : Quoted .normal := fun _ _ other => ScanMode.noConfusion other

theorem Opens.ne_normal {t : Token} {mode : ScanMode} (opens : mode.Opens t) : mode ≠ .normal := by
  rintro rfl
  exact opens

theorem Holds.ne_normal {t : Token} {mode : ScanMode} (holds : mode.Holds t) : mode ≠ .normal := by
  rintro rfl
  exact holds

theorem Closes.ne_normal {ahead : List Char} {t : Token} {mode : ScanMode}
    (closes : mode.Closes ahead t) : mode ≠ .normal := by
  rintro rfl
  exact closes

end ScanMode

namespace Scanner

variable {s s' : Scanner} {t : Token}

/-- The scanner yields the token, by what it is inside of before and after. -/
inductive Moves (s : Scanner) (t : Token) (s' : Scanner) : Prop
  /-- A token that does not lead into anything. -/
  | stay (outside : s.mode = .normal) (inside : t.kind.isInside = false)
    (leads : t.kind.leadsInside = false) (stays : s'.mode = .normal)
  | enter (outside : s.mode = .normal) (opens : s'.mode.Opens t)
  | hold (holds : s.mode.Holds t) (more : ¬ s.mode.Ends s.rest) (ends : s.mode.Ends s'.rest)
    (stays : s'.mode = s.mode)
  | leave (closes : s.mode.Closes s.rest t) (ends : s.mode.Ends s.rest)
    (outside : s'.mode = .normal)

theorem toList_text_yield (s : Scanner) (kind : Kind) (n : Nat) :
    (s.yield kind n).1.text.toList = s.rest.take n := String.toList_ofList

theorem text_yield_ne_empty {kind : Kind} {n : Nat} (some : s.rest ≠ []) (pos : 0 < n) :
    (s.yield kind n).1.text ≠ "" := by
  intro empty
  have none := toList_text_yield s kind n
  rw [empty] at none
  rcases List.take_eq_nil_iff.mp none.symm with zero | none
  · omega
  · exact some none

/-- A lexeme is read outside strings and comments. -/
structure ReadsLexeme (s : Scanner) (t : Token) (s' : Scanner) (c : Char) (cs : List Char)
    (k : Kind) (n : Nat) : Prop where
  ahead : s.skipBlanks.rest = c :: cs
  leading : Lexeme.leading s.skipBlanks.afterOperand (c :: cs) = (k, n)
  token : t = (s.skipBlanks.yield k n).1
  mode : s'.mode = modeAfter k c s.skipBlanks.here
  errors : s'.errors =
    if k = .error then s.errors.push (.unrecognizedCharacter c t.span) else s.errors

/-- Outside strings and comments, the scanner yields the end of input or reads a lexeme. -/
theorem eof_or_readsLexeme (step : s.stepNormal = some (t, s')) :
    (t.kind = .eof ∧ s'.mode = s.mode ∧ s'.rest = [] ∧ s'.errors = s.errors) ∨
      ∃ c cs k n, ReadsLexeme s t s' c cs k n := by
  unfold stepNormal at step
  dsimp only at step
  split at step
  · next none =>
    split at step
    · cases step
    cases step
    exact .inl ⟨rfl, rfl, none, rfl⟩
  · next c cs ahead =>
    rw [ahead] at step
    rcases leading : Lexeme.leading s.skipBlanks.afterOperand (c :: cs) with ⟨k, n⟩
    rw [leading] at step
    refine .inr ⟨c, cs, k, n, ahead, leading, ?_, ?_, ?_⟩ <;> cases step
    · rfl
    · split <;> rfl
    · dsimp only
      split <;> rfl

theorem stepNormal_moves (mode : s.mode = .normal) (step : s.stepNormal = some (t, s')) :
    Moves s t s' := by
  have plain : ∀ k ∈ Lexeme.ordinary, k.isInside = false ∧ k.leadsInside = false := by decide
  rcases eof_or_readsLexeme step with ⟨eof, stays, -, -⟩ | ⟨c, cs, k, n, read⟩
  · exact .stay mode (by rw [eof]; rfl) (by rw [eof]; rfl) (stays.trans mode)
  have entered := read.mode
  rw [read.token]
  rcases read.leading ▸ Lexeme.leading_cases s.skipBlanks.afterOperand (c :: cs) with
    ordinary | found | ⟨found, rest, opens⟩ | ⟨found, quote, rest, opens, isQuote⟩
  · obtain ⟨inside, leads⟩ := plain _ ordinary
    refine .stay mode inside leads ?_
    rw [entered]
    revert leads
    cases k <;> intro leads <;> first | rfl | cases leads
  · cases found
    exact .stay mode rfl rfl entered
  · cases found
    refine .enter mode ?_
    rw [entered]
    refine ⟨rfl, ?_, rfl⟩
    show String.ofList (s.skipBlanks.rest.take 2) = _
    rw [read.ahead, opens]
    rfl
  · cases found
    cases opens
    refine .enter mode ?_
    rw [entered]
    refine ⟨rfl, ?_, isQuote, rfl⟩
    rw [toList_text_yield, read.ahead]
    rfl

theorem stepComment_moves {start : Position} (mode : s.mode = .inBlockComment start) :
    Moves s (s.stepComment start).1 (s.stepComment start).2 := by
  unfold stepComment
  split
  · next none =>
    refine .leave ?_ ?_ rfl <;> rw [mode, none]
    · exact ⟨rfl, rfl⟩
    · exact .inl rfl
  · next rest closing =>
    refine .leave ?_ ?_ rfl <;> rw [mode, closing]
    · refine ⟨rfl, ?_⟩
      show String.ofList (s.rest.take 2) = _
      rw [closing, if_pos (by simp)]
      rfl
    · exact .inr ⟨rest, rfl⟩
  · next some notClosing =>
    have more : ¬ (s.rest = [] ∨ ['*', '/'] <+: s.rest) := by
      rintro (none | ⟨rest, closing⟩)
      · exact some none
      · exact notClosing rest closing.symm
    refine .hold ?_ ?_ ?_ rfl <;> rw [mode]
    · refine ⟨rfl, text_yield_ne_empty some ?_, ?_⟩
      · exact Nat.pos_of_ne_zero (mt Lexeme.commentContent_eq_zero_iff.mp more)
      · rw [toList_text_yield]
        exact Lexeme.infix_commentContent s.rest
    · exact more
    · exact Lexeme.commentContent_eq_zero_iff.mp (Lexeme.commentContent_drop s.rest)

theorem stepString_moves {quote : Char} {start : Position}
    (mode : s.mode = .inString quote start) (quoted : Lexeme.isQuote quote = true) :
    Moves s (s.stepString quote start).1 (s.stepString quote start).2 := by
  unfold stepString
  split
  · next none =>
    refine .leave ?_ ?_ rfl <;> rw [mode, none]
    · exact ⟨rfl, rfl⟩
    · exact fun _ head => by cases head
  next c cs ahead =>
  split
  · next lineEnd =>
    have other : c ≠ quote := by
      rintro rfl
      rcases Lexeme.isLineEnd_iff.mp lineEnd with rfl | rfl <;> cases quoted
    refine .leave ?_ ?_ rfl <;> rw [mode, ahead]
    · exact ⟨rfl, (if_neg (by simpa using other)).symm⟩
    · rintro d ⟨⟩
      exact .inr (Lexeme.isLineEnd_iff.mp lineEnd)
  split
  · next same =>
    refine .leave ?_ ?_ rfl <;> rw [mode, ahead]
    · refine ⟨rfl, ?_⟩
      rw [toList_text_yield]
      show s.rest.take 1 = _
      rw [ahead, if_pos (by simp [same]), same]
      rfl
    · rintro d ⟨⟩
      exact .inl same
  · next notEnd notQuote =>
    have go : ¬(c = quote ∨ Lexeme.isLineEnd c = true) := by
      rintro (same | lineEnd)
      · exact notQuote same
      · exact notEnd lineEnd
    refine .hold ?_ ?_ ?_ rfl <;> rw [mode]
    · refine ⟨rfl, text_yield_ne_empty (by simp [ahead]) ?_, fun d inside => ?_⟩
      · rw [ahead]
        exact Lexeme.stringContent_pos go cs
      · rw [toList_text_yield] at inside
        have bare := Lexeme.bare_stringContent quote s.rest d inside
        rw [Lexeme.isLineEnd_iff, not_or, not_or] at bare
        exact bare
    · intro ends
      have stops := ends c (by rw [ahead]; rfl)
      rw [← Lexeme.isLineEnd_iff] at stops
      exact go stops
    · intro d found
      rw [← Lexeme.isLineEnd_iff]
      exact Lexeme.stops_of_stringContent_eq_zero (Lexeme.stringContent_drop quote s.rest) d found

/-- Every step is one of the four moves. -/
theorem step_moves (quoted : s.mode.Quoted) (step : s.step = some (t, s')) :
    Moves s t s' := by
  unfold Scanner.step at step
  split at step
  · next mode => exact stepNormal_moves mode step
  · next start mode =>
    have moves := stepComment_moves mode
    rwa [Option.some.inj step] at moves
  · next quote start mode =>
    have moves := stepString_moves mode (quoted quote start mode)
    rwa [Option.some.inj step] at moves

/-- The quote that a string is left at is remembered. -/
theorem Moves.quoted (moves : Moves s t s') (before : s.mode.Quoted) : s'.mode.Quoted := by
  cases moves with
  | stay _ _ _ outside | leave _ _ outside => exact outside ▸ ScanMode.quoted_normal
  | enter _ opens => exact opens.quoted
  | hold _ _ _ stays => exact stays ▸ before

end Scanner

end JassSyntax
