import JassSyntax.Proofs.Layout.Lexemes
import JassSyntax.Proofs.Layout.Pieces

/-!
# Scanning the same pieces again

Two scanners walk over the same tokens behind different gaps. A scanner decides by what is ahead, by
its mode and by the token before, never by its place. What is ahead of both is the same text as far
as the next new gap, which begins with a line end. So the second yields every token that the first
yields, as long as the first meets no error.
-/

namespace JassSyntax

/-- The mode, wherever it was entered. -/
def ScanMode.shape : ScanMode → ScanMode
  | .normal => .normal
  | .inBlockComment _ => .inBlockComment .origin
  | .inString quote _ => .inString quote .origin

/-- Both texts go on alike, and if not to the end, then the new one goes on with a line end. -/
def Rejoined (old new : List Char) : Prop :=
  new = old ∨ ∃ kept rest nl more, Lexeme.isLineEnd nl = true ∧ old = kept ++ rest ∧
    new = kept ++ nl :: more

namespace Rejoined

variable {old new : List Char}

theorem behind (h : Rejoined old new) (same : List Char) :
    Rejoined (same ++ old) (same ++ new) := by
  rcases h with rfl | ⟨kept, rest, nl, more, lineEnd, rfl, rfl⟩
  · exact .inl rfl
  · exact .inr ⟨same ++ kept, rest, nl, more, lineEnd, (List.append_assoc ..).symm,
      (List.append_assoc ..).symm⟩

/-- A lexeme is the same before both texts. -/
theorem leading (h : Rejoined old new) (afterOperand : Bool) (word : List Char)
    (fits : (Lexeme.leading afterOperand (word ++ old)).2 ≤ word.length) :
    Lexeme.leading afterOperand (word ++ new) = Lexeme.leading afterOperand (word ++ old) := by
  rcases h with rfl | ⟨kept, rest, nl, more, lineEnd, rfl, rfl⟩
  · rfl
  · rw [← List.append_assoc, ← List.append_assoc] at *
    exact Lexeme.leading_cut lineEnd (Nat.le_trans fits (by rw [List.length_append]; omega))

end Rejoined

namespace Scanner

variable {source : String} {s s' n e : Scanner} {t : Token} {ts : List Token}
  {gap back : List Char}

/-- Both have come as far, the second without errors. -/
structure Like (s s' : Scanner) : Prop where
  mode : s'.mode.shape = s.mode.shape
  finished : s'.finished = s.finished
  previous : s'.previous = s.previous
  errors : s'.errors = #[]
  quote : ∀ q p, s.mode = .inString q p → Lexeme.isQuote q = true

namespace Like

theorem normal (h : s.Like s') (mode : s.mode = .normal) : s'.mode = .normal := by
  have shape := h.mode
  rw [mode] at shape
  revert shape
  cases s'.mode <;> simp [ScanMode.shape]

theorem inBlockComment {p : Position} (h : s.Like s') (mode : s.mode = .inBlockComment p) :
    ∃ p', s'.mode = .inBlockComment p' := by
  have shape := h.mode
  rw [mode] at shape
  revert shape
  cases s'.mode <;> simp [ScanMode.shape]

theorem inString {q : Char} {p : Position} (h : s.Like s') (mode : s.mode = .inString q p) :
    ∃ p', s'.mode = .inString q p' := by
  have shape := h.mode
  rw [mode] at shape
  revert shape
  cases s'.mode <;> simp [ScanMode.shape, eq_comm]

theorem afterOperand (h : s.Like s') : s'.afterOperand = s.afterOperand := by
  rw [Scanner.afterOperand, Scanner.afterOperand, h.previous]

theorem skipBlanks (h : s.Like s') : s.skipBlanks.Like s'.skipBlanks :=
  ⟨h.mode, h.finished, h.previous, h.errors, h.quote⟩

theorem enter (h : s.Like s') {m m' : ScanMode} (shape : m'.shape = m.shape)
    (quote : ∀ q p, m = .inString q p → Lexeme.isQuote q = true) : (s.enter m).Like (s'.enter m') :=
  ⟨shape, h.finished, h.previous, h.errors, quote⟩

theorem leave (h : s.Like s') : (s.enter .normal).Like (s'.enter .normal) :=
  h.enter rfl fun _ _ other => by cases other

theorem finish (h : s.Like s') :
    { s with finished := true }.Like { s' with finished := true } :=
  ⟨h.mode, rfl, h.previous, h.errors, h.quote⟩

theorem yield (h : s.Like s') (kind : Kind) (k k' : Nat) :
    (s.yield kind k).2.Like (s'.yield kind k').2 := by
  refine ⟨h.mode, h.finished, ?_, h.errors, h.quote⟩
  show (if _ then _ else _) = if _ then _ else _
  rw [h.previous]

end Like

/-- The second scanner yields the token too, which brings it before `back`, as far as the first. -/
structure Rereads (t : Token) (n : Scanner) (back : List Char) (again : Token × Scanner) :
    Prop where
  kind : again.1.kind = t.kind
  text : again.1.text = t.text
  rest : again.2.rest = back
  like : n.Like again.2

/-- The same characters are ahead of both. -/
theorem Like.rereads_yield (like : s.Like s') (kind : Kind) {k : Nat} (fits : k ≤ s.rest.length)
    (rest : s'.rest = s.rest.take k ++ back) :
    Rereads (s.yield kind k).1 (s.yield kind k).2 back (s'.yield kind k) := by
  have length : (s.rest.take k).length = k := List.length_take_of_le fits
  refine ⟨rfl, ?_, ?_, like.yield kind k k⟩
  · show String.ofList (s'.rest.take k) = String.ofList (s.rest.take k)
    rw [rest, List.take_append_of_le_length (Nat.le_of_eq length.symm), List.take_of_length_le]
    exact Nat.le_of_eq length
  · show s'.rest.drop k = back
    rw [rest, List.drop_left' length]

/-- The inside of a string or a comment, which ends at the same closing in both texts. -/
theorem Like.rereads_inside (like : s.Like s') (kind : Kind) (closing : List Char)
    {content : List Char → Nat} {cs more : List Char} (some : closing ≠ [])
    (cut : ∀ {inside}, content (inside ++ (closing ++ cs)) = inside.length →
      content (inside ++ (closing ++ more)) = inside.length)
    (behind : s.rest.drop (content s.rest) = closing ++ cs)
    (rest : s'.rest = s.rest.take (content s.rest) ++ (closing ++ more)) :
    content s'.rest = content s.rest ∧
      Rereads (s.yield kind (content s.rest)).1 (s.yield kind (content s.rest)).2 (closing ++ more)
        (s'.yield kind (content s.rest)) := by
  have le : content s.rest ≤ s.rest.length := by
    have length := congrArg List.length behind
    have pos := List.length_pos_iff.mpr some
    rw [List.length_drop, List.length_append] at length
    omega
  have length : (s.rest.take (content s.rest)).length = content s.rest := List.length_take_of_le le
  have whole : content (s.rest.take (content s.rest) ++ (closing ++ cs)) =
      (s.rest.take (content s.rest)).length := by
    rw [← behind, List.take_append_drop, length]
  exact ⟨by rw [rest, cut whole, length], like.rereads_yield kind le rest⟩

/-! ## Outside strings and comments -/

theorem stepNormal_of_nil (none : s.skipBlanks.rest = []) (going : s.finished = false) :
    s.stepNormal = some ({ s.skipBlanks with finished := true }.yield .eof 0) := by
  have still : s.skipBlanks.finished = false := going
  unfold stepNormal
  simp only [none, still, Bool.false_eq_true, if_false]

theorem stepNormal_of_cons {c : Char} {cs : List Char} (ahead : s.skipBlanks.rest = c :: cs)
    {kind : Kind} {k : Nat} (lexeme : Lexeme.leading s.afterOperand (c :: cs) = (kind, k))
    (fine : kind ≠ .error) :
    s.stepNormal = some ((s.skipBlanks.yield kind k).1,
      (s.skipBlanks.yield kind k).2.enter (modeAfter kind c s.skipBlanks.here)) := by
  have lexeme : Lexeme.leading s.skipBlanks.afterOperand (c :: cs) = (kind, k) := lexeme
  unfold stepNormal
  simp only [ahead, lexeme, if_neg fine]

/-- Without errors there is the end of input or a token that is no error. -/
theorem stepNormal_cases (step : s.stepNormal = some (t, n)) (fine : n.errors = #[]) :
    (s.skipBlanks.rest = [] ∧ s.finished = false) ∨
      ∃ c cs, s.skipBlanks.rest = c :: cs ∧
        (Lexeme.leading s.afterOperand (c :: cs)).1 ≠ .error := by
  cases ahead : s.skipBlanks.rest with
  | nil =>
      refine .inl ⟨rfl, Bool.eq_false_iff.mpr fun finished => ?_⟩
      have finished : s.skipBlanks.finished = true := finished
      unfold stepNormal at step
      simp only [ahead, finished, if_true] at step
      cases step
  | cons c cs =>
      refine .inr ⟨c, cs, rfl, fun error => ?_⟩
      have error : (Lexeme.leading s.skipBlanks.afterOperand (c :: cs)).1 = .error := error
      unfold stepNormal at step
      simp only [ahead, error, if_true] at step
      cases step
      simp [report] at fine

/-- Behind blanks the scanner is before the next word. -/
theorem skipBlanks_rest {word : List Char} (rest : s.rest = gap ++ word)
    (blank : ∀ c ∈ gap, Text.isBlank c = true) (ink : ∀ c ∈ word.head?, Text.isBlank c = false) :
    s.skipBlanks.rest = word := by
  show s.rest.dropWhile Text.isBlank = word
  rw [rest, List.dropWhile_append_of_pos blank]
  cases word with
  | nil => rfl
  | cons c cs => rw [List.dropWhile_cons_of_neg (by rw [ink c rfl]; decide)]

theorem ink_skipBlanks : ∀ c ∈ s.skipBlanks.rest.head?, Text.isBlank c = false := by
  intro c head
  have ink := List.head?_dropWhile_not Text.isBlank s.rest
  have same : s.rest.dropWhile Text.isBlank = s.skipBlanks.rest := rfl
  rw [same, Option.mem_def.mp head] at ink
  exact ink

theorem shape_modeAfter (kind : Kind) (c : Char) (p q : Position) :
    (modeAfter kind c p).shape = (modeAfter kind c q).shape := by
  cases kind <;> rfl

/-- A string begins with a quote. -/
theorem isQuote_of_modeAfter (afterOperand : Bool) (c : Char) (cs : List Char) (p : Position) :
    ∀ q from_, modeAfter (Lexeme.leading afterOperand (c :: cs)).1 c p = .inString q from_ →
      Lexeme.isQuote q = true := by
  intro q from_ mode
  have other : ∀ k ∈ Lexeme.beginnings, k ≠ .stringStart := by decide
  rcases Lexeme.leading_kind afterOperand (c :: cs) with h | ⟨h, d, head, quote⟩
  · have plain := other _ h
    revert mode plain
    cases (Lexeme.leading afterOperand (c :: cs)).1 <;> simp [modeAfter]
  · cases head
    rw [h] at mode
    cases mode
    exact quote

/-- Behind the last blanks is the end of input. -/
theorem Like.rereads_end (like : s.Like s') (going : s.finished = false)
    (blank : ∀ c ∈ s'.rest, Text.isBlank c = true) :
    ∃ again, s'.stepNormal = some again ∧
      Rereads ({ s.skipBlanks with finished := true }.yield .eof 0).1
        ({ s.skipBlanks with finished := true }.yield .eof 0).2 [] again := by
  have none : s'.skipBlanks.rest = [] :=
    skipBlanks_rest (List.append_nil s'.rest).symm blank (by simp)
  refine ⟨_, stepNormal_of_nil none (like.finished.trans going), ?_⟩
  exact like.skipBlanks.finish.rereads_yield .eof (Nat.zero_le _) none

/-- Behind the blanks is the same lexeme. -/
theorem Like.rereads_lexeme (like : s.Like s') {c : Char} {cs : List Char} {kind : Kind} {j : Nat}
    (ahead : s.skipBlanks.rest = c :: cs)
    (lexeme : Lexeme.leading s.afterOperand (c :: cs) = (kind, j + 1)) (plain : kind ≠ .error)
    (blank : ∀ c ∈ gap, Text.isBlank c = true)
    (rest : s'.rest = gap ++ (s.skipBlanks.rest.take (j + 1) ++ back))
    (rejoined : Rejoined (s.skipBlanks.rest.drop (j + 1)) back) :
    ∃ again, s'.stepNormal = some again ∧
      Rereads (s.skipBlanks.yield kind (j + 1)).1
        ((s.skipBlanks.yield kind (j + 1)).2.enter (modeAfter kind c s.skipBlanks.here)) back
        again := by
  have le : j + 1 ≤ (c :: cs).length := by
    have le := Lexeme.leading_le s.afterOperand (List.cons_ne_nil c cs)
    rwa [lexeme] at le
  have quote := isQuote_of_modeAfter s.afterOperand c cs s.skipBlanks.here
  rw [lexeme] at quote
  have word : s.skipBlanks.rest.take (j + 1) = c :: cs.take j := by
    rw [ahead, List.take_succ_cons]
  have ahead' : s'.skipBlanks.rest = s.skipBlanks.rest.take (j + 1) ++ back := by
    refine skipBlanks_rest rest blank fun d head => ink_skipBlanks (s := s) d ?_
    rw [word] at head
    rw [ahead]
    exact head
  have again : Lexeme.leading s'.afterOperand (c :: (cs.take j ++ back)) = (kind, j + 1) := by
    have whole : s.skipBlanks.rest.take (j + 1) ++ s.skipBlanks.rest.drop (j + 1) = c :: cs :=
      List.take_append_drop .. |>.trans ahead
    have both := rejoined.leading s.afterOperand (s.skipBlanks.rest.take (j + 1))
      (by rw [whole, lexeme, ahead, List.length_take_of_le le])
    rw [whole, lexeme, word] at both
    rw [like.afterOperand]
    exact both
  refine ⟨_, stepNormal_of_cons (by rw [ahead', word]; rfl) again plain, ?_⟩
  have read := like.skipBlanks.rereads_yield kind (by rw [ahead]; exact le) ahead'
  exact ⟨rfl, read.text, read.rest, read.like.enter (shape_modeAfter ..) quote⟩

theorem stepNormal_rereads (like : s.Like s') (step : s.stepNormal = some (t, n))
    (fine : n.errors = #[]) (blank : ∀ c ∈ gap, Text.isBlank c = true)
    (rest : s'.rest = gap ++ (t.text.toList ++ back)) (rejoined : Rejoined n.rest back)
    (last : t.kind = .eof → back = []) :
    ∃ again, s'.stepNormal = some again ∧ Rereads t n back again := by
  rcases stepNormal_cases step fine with ⟨none, going⟩ | ⟨c, cs, ahead, plain⟩
  · have same := Option.some.inj ((stepNormal_of_nil none going).symm.trans step)
    obtain ⟨rfl, rfl⟩ := Prod.ext_iff.mp same
    obtain rfl := last rfl
    have blanks : s'.rest = gap := rest.trans (List.append_nil gap)
    exact like.rereads_end going (blanks ▸ blank)
  · cases lexeme : Lexeme.leading s.afterOperand (c :: cs) with
    | mk kind k =>
        have pos := Lexeme.leading_pos s.afterOperand (c :: cs)
        rw [lexeme] at pos plain
        obtain ⟨j, rfl⟩ := Nat.exists_eq_succ_of_ne_zero (Nat.ne_of_gt pos)
        have same := Option.some.inj ((stepNormal_of_cons ahead lexeme plain).symm.trans step)
        obtain ⟨rfl, rfl⟩ := Prod.ext_iff.mp same
        exact like.rereads_lexeme ahead lexeme plain blank
          (rest.trans (by simp [Scanner.yield])) rejoined

/-! ## Inside block comments -/

theorem stepComment_of_closing {start : Position} {cs : List Char}
    (ahead : s.rest = '*' :: '/' :: cs) :
    s.stepComment start = (s.enter .normal).yield .blockCommentEnd 2 := by
  unfold stepComment
  simp only [ahead]

theorem stepComment_of_content {start : Position} (some : 0 < Lexeme.commentContent s.rest) :
    s.stepComment start = s.yield .blockCommentContent (Lexeme.commentContent s.rest) := by
  unfold stepComment
  split
  · next none => rw [none] at some; cases some
  · next closing => rw [closing] at some; cases some
  · rfl

/-- Without errors there is a closing, or something in front of it. -/
theorem stepComment_cases {start : Position} (fine : (s.stepComment start).2.errors = #[]) :
    (∃ cs, s.rest = '*' :: '/' :: cs) ∨ 0 < Lexeme.commentContent s.rest := by
  rcases ahead : s.rest with _ | ⟨c, cs⟩
  · unfold stepComment at fine
    simp [ahead, Scanner.yield, Scanner.enter, report] at fine
  · by_cases closing : c = '*' ∧ cs.head? = some '/'
    · obtain ⟨rfl, slash⟩ := closing
      obtain ⟨ds, rfl⟩ := List.head?_eq_some_iff.mp slash
      exact .inl ⟨ds, rfl⟩
    · right
      rw [Lexeme.commentContent, if_neg closing]
      omega

/-- The next token is there too, and no error is met before it. -/
def Onward (n : Scanner) (back : List Char) : Prop :=
  ∃ u m more, n.step = some (u, m) ∧ m.errors = #[] ∧ back = u.text.toList ++ more

/-- What comes behind the inside of a comment is its closing. -/
theorem Onward.closing {start : Position} (h : s.Onward back)
    (mode : s.mode = .inBlockComment start) (none : Lexeme.commentContent s.rest = 0) :
    ∃ cs more, s.rest = '*' :: '/' :: cs ∧ back = '*' :: '/' :: more := by
  obtain ⟨u, m, more, step, fine, rfl⟩ := h
  unfold Scanner.step at step
  simp only [mode] at step
  obtain ⟨rfl, rfl⟩ := Prod.ext_iff.mp (Option.some.inj step)
  rcases stepComment_cases fine with ⟨cs, ahead⟩ | some
  · refine ⟨cs, more, ahead, ?_⟩
    rw [stepComment_of_closing ahead]
    simp [Scanner.yield, Scanner.enter, ahead]
  · omega

theorem stepComment_rereads (like : s.Like s') {start start' : Position}
    (mode : s.mode = .inBlockComment start) (fine : (s.stepComment start).2.errors = #[])
    (rest : s'.rest = (s.stepComment start).1.text.toList ++ back)
    (next : (s.stepComment start).2.mode ≠ .normal → (s.stepComment start).2.Onward back) :
    Rereads (s.stepComment start).1 (s.stepComment start).2 back (s'.stepComment start') := by
  rcases stepComment_cases fine with ⟨cs, ahead⟩ | some
  · rw [stepComment_of_closing ahead] at rest ⊢
    have ahead' : s'.rest = s.rest.take 2 ++ back := by
      simpa [Scanner.yield, Scanner.enter] using rest
    have closing : s'.rest = '*' :: '/' :: back := by
      rw [ahead', ahead]
      rfl
    rw [stepComment_of_closing closing]
    exact like.leave.rereads_yield .blockCommentEnd (by simp [Scanner.enter, ahead]) ahead'
  · rw [stepComment_of_content some] at rest next ⊢
    have inside : s.mode ≠ .normal := by rw [mode]; exact ScanMode.noConfusion
    obtain ⟨cs, more, closing, rfl⟩ :=
      (next inside).closing mode (Lexeme.commentContent_drop s.rest)
    obtain ⟨same, read⟩ := like.rereads_inside .blockCommentContent ['*', '/']
      (List.cons_ne_nil _ _) Lexeme.commentContent_cut closing (by simpa [Scanner.yield] using rest)
    rw [stepComment_of_content (same ▸ some), same]
    exact read

/-! ## Inside strings -/

theorem stepString_of_quote {quote : Char} {start : Position} {cs : List Char}
    (isQuote : Lexeme.isQuote quote = true) (ahead : s.rest = quote :: cs) :
    s.stepString quote start = (s.enter .normal).yield .stringEnd 1 := by
  have plain : ¬Lexeme.isLineEnd quote = true := fun lineEnd => by
    rw [Lexeme.stops_of (p := Lexeme.isQuote) (by decide) (by decide) lineEnd] at isQuote
    cases isQuote
  unfold stepString
  simp only [ahead, if_neg plain, if_true]

theorem stepString_of_content {quote : Char} {start : Position} (slash : quote ≠ '\\')
    (some : 0 < Lexeme.stringContent quote s.rest) :
    s.stepString quote start = s.yield .stringContent (Lexeme.stringContent quote s.rest) := by
  unfold stepString
  split
  · next none => rw [none] at some; cases some
  · next c cs ahead =>
    have go : ¬(c = quote ∨ Lexeme.isLineEnd c = true) := fun stop => by
      rw [ahead, Lexeme.stringContent_eq_zero slash stop] at some
      cases some
    rw [if_neg fun lineEnd => go (.inr lineEnd), if_neg fun same => go (.inl same)]

/-- Without errors there is the quote, or something in front of it. -/
theorem stepString_cases {quote : Char} {start : Position}
    (fine : (s.stepString quote start).2.errors = #[]) :
    (∃ cs, s.rest = quote :: cs) ∨ 0 < Lexeme.stringContent quote s.rest := by
  rcases ahead : s.rest with _ | ⟨c, cs⟩
  · unfold stepString at fine
    simp [ahead, Scanner.yield, Scanner.enter, report] at fine
  by_cases same : c = quote
  · exact .inl ⟨cs, congrArg (· :: cs) same⟩
  by_cases lineEnd : Lexeme.isLineEnd c = true
  · unfold stepString at fine
    simp [ahead, lineEnd, Scanner.yield, Scanner.enter, report] at fine
  · exact .inr (Lexeme.stringContent_pos (fun stop => stop.elim same lineEnd) cs)

/-- What comes behind the inside of a string is its quote. -/
theorem Onward.quote {quote : Char} {start : Position} (h : s.Onward back)
    (mode : s.mode = .inString quote start) (isQuote : Lexeme.isQuote quote = true)
    (none : Lexeme.stringContent quote s.rest = 0) :
    ∃ cs more, s.rest = quote :: cs ∧ back = quote :: more := by
  obtain ⟨u, m, more, step, fine, rfl⟩ := h
  unfold Scanner.step at step
  simp only [mode] at step
  obtain ⟨rfl, rfl⟩ := Prod.ext_iff.mp (Option.some.inj step)
  rcases stepString_cases fine with ⟨cs, ahead⟩ | some
  · refine ⟨cs, more, ahead, ?_⟩
    rw [stepString_of_quote isQuote ahead]
    simp [Scanner.yield, Scanner.enter, ahead]
  · omega

theorem stepString_rereads (like : s.Like s') {quote : Char} {start start' : Position}
    (mode : s.mode = .inString quote start) (fine : (s.stepString quote start).2.errors = #[])
    (rest : s'.rest = (s.stepString quote start).1.text.toList ++ back)
    (next : (s.stepString quote start).2.mode ≠ .normal →
      (s.stepString quote start).2.Onward back) :
    Rereads (s.stepString quote start).1 (s.stepString quote start).2 back
      (s'.stepString quote start') := by
  have isQuote := like.quote _ _ mode
  have slash : quote ≠ '\\' := by
    rintro rfl
    cases isQuote
  rcases stepString_cases fine with ⟨cs, ahead⟩ | some
  · rw [stepString_of_quote isQuote ahead] at rest ⊢
    have ahead' : s'.rest = s.rest.take 1 ++ back := by
      simpa [Scanner.yield, Scanner.enter] using rest
    have closing : s'.rest = quote :: back := by
      rw [ahead', ahead]
      rfl
    rw [stepString_of_quote isQuote closing]
    exact like.leave.rereads_yield .stringEnd (by simp [Scanner.enter, ahead]) ahead'
  · rw [stepString_of_content slash some] at rest next ⊢
    have inside : s.mode ≠ .normal := by rw [mode]; exact ScanMode.noConfusion
    obtain ⟨cs, more, closing, rfl⟩ :=
      (next inside).quote mode isQuote (Lexeme.stringContent_drop quote s.rest)
    obtain ⟨same, read⟩ := like.rereads_inside .stringContent [quote]
      (List.cons_ne_nil _ _) (Lexeme.stringContent_cut slash) closing
      (by simpa [Scanner.yield] using rest)
    rw [stepString_of_content slash (same ▸ some), same]
    exact read

/-! ## All steps -/

theorem step_rereads (like : s.Like s') (step : s.step = some (t, n)) (fine : n.errors = #[])
    (blank : ∀ c ∈ gap, Text.isBlank c = true) (inside : s.mode ≠ .normal → gap = [])
    (rest : s'.rest = gap ++ (t.text.toList ++ back)) (rejoined : Rejoined n.rest back)
    (last : t.kind = .eof → back = []) (next : n.mode ≠ .normal → n.Onward back) :
    ∃ again, s'.step = some again ∧ Rereads t n back again := by
  unfold Scanner.step at step
  split at step
  · next mode =>
    unfold Scanner.step
    simp only [like.normal mode]
    exact stepNormal_rereads like step fine blank rest rejoined last
  · next start mode =>
    obtain ⟨start', mode'⟩ := like.inBlockComment mode
    obtain ⟨rfl, rfl⟩ := Prod.ext_iff.mp (Option.some.inj step)
    rw [inside (by rw [mode]; exact ScanMode.noConfusion), List.nil_append] at rest
    unfold Scanner.step
    simp only [mode']
    exact ⟨_, rfl, stepComment_rereads like mode fine rest next⟩
  · next quote start mode =>
    obtain ⟨start', mode'⟩ := like.inString mode
    obtain ⟨rfl, rfl⟩ := Prod.ext_iff.mp (Option.some.inj step)
    rw [inside (by rw [mode]; exact ScanMode.noConfusion), List.nil_append] at rest
    unfold Scanner.step
    simp only [mode']
    exact ⟨_, rfl, stepString_rereads like mode fine rest next⟩

theorem step_errors (step : s.step = some (t, n)) (fine : n.errors = #[]) : s.errors = #[] := by
  unfold Scanner.step at step
  split at step
  · rcases stepNormal_cases step fine with ⟨none, going⟩ | ⟨c, cs, ahead, plain⟩
    · have same := (stepNormal_of_nil none going).symm.trans step
      obtain rfl := congrArg Prod.snd (Option.some.inj same)
      exact fine
    · have same := (stepNormal_of_cons ahead rfl plain).symm.trans step
      obtain rfl := congrArg Prod.snd (Option.some.inj same)
      exact fine
  · next start _ =>
    obtain rfl := congrArg Prod.snd (Option.some.inj step)
    rcases stepComment_cases fine with ⟨cs, ahead⟩ | some
    · rw [stepComment_of_closing ahead] at fine
      exact fine
    · rw [stepComment_of_content some] at fine
      exact fine
  · next quote start _ =>
    obtain rfl := congrArg Prod.snd (Option.some.inj step)
    unfold stepString at fine
    split at fine
    · simp [Scanner.yield, Scanner.enter, report] at fine
    split at fine
    · simp [Scanner.yield, Scanner.enter, report] at fine
    split at fine
    · exact fine
    · exact fine

theorem Steps.errors (steps : s.Steps ts e) (fine : e.errors = #[]) : s.errors = #[] := by
  induction steps with
  | refl => exact fine
  | cons first _ ih => exact step_errors first (ih fine)

theorem Steps.eq_nil (steps : s.Steps ts e) (none : s.step = none) : ts = [] := by
  cases steps with
  | refl => rfl
  | cons first => rw [none] at first; cases first

/-- Strings and comments do not end with the text. -/
theorem mode_of_step_none (none : s.step = none) : s.mode = .normal := by
  unfold Scanner.step at none
  split at none
  · assumption
  · cases none
  · cases none

end Scanner

/-- The same token, behind the same gap or, outside strings and block comments, behind white space
that begins with a line end. -/
structure Piece.Respaced (p q : Piece) : Prop where
  token : q.token = p.token
  gap : q.gap = p.gap ∨ p.token.kind.isInside = false ∧
    (∀ c ∈ q.gap.toList, Text.isBlank c = true) ∧
      ∃ c ∈ q.gap.toList.head?, Lexeme.isLineEnd c = true

theorem rejoined_of_respaced {ps qs : List Piece} (h : List.Forall₂ Piece.Respaced ps qs) :
    Rejoined (ps.flatMap fun p => p.text.toList) (qs.flatMap fun q => q.text.toList) := by
  induction h with
  | nil => exact .inl rfl
  | @cons p q ps qs respaced _ ih =>
      rw [List.flatMap_cons, List.flatMap_cons]
      rcases respaced.gap with same | ⟨_, _, nl, head, lineEnd⟩
      · rw [Piece.text, Piece.text, same, respaced.token]
        exact ih.behind _
      · obtain ⟨more, gap⟩ := List.head?_eq_some_iff.mp head
        refine .inr ⟨[], _, nl, more ++ q.token.text.toList ++ qs.flatMap fun q => q.text.toList,
          lineEnd, rfl, ?_⟩
        rw [Piece.text, String.toList_append, gap]
        simp

namespace Scanner

variable {source : String} {s s' e : Scanner} {ts : List Token}

/-- Inside a string or a block comment the next token follows without a gap. -/
theorem Steps.onward (steps : s.Steps ts e) (at_ : s.At source) (last : e.step = none)
    (fine : e.errors = #[]) {qs : List Piece}
    (respaced : List.Forall₂ Piece.Respaced (pieces source s.here ts) qs)
    (inside : s.mode ≠ .normal) :
    s.Onward (qs.flatMap fun q => q.text.toList) := by
  cases steps with
  | refl => exact absurd (mode_of_step_none last) inside
  | @cons _ m _ t ts first steps =>
      rw [pieces_cons at_ first] at respaced
      cases respaced with
      | @cons _ q _ qs here _ =>
          have gap : q.gap = "" := by
            rcases here.gap with same | ⟨outside, _⟩
            · rw [same, gap_of_inside inside]
            · rw [(step_passes first).inside.mpr inside] at outside
              cases outside
          refine ⟨t, m, qs.flatMap fun q => q.text.toList, first, steps.errors fine, ?_⟩
          rw [List.flatMap_cons, Piece.text, gap, here.token, String.empty_append]

/-- A scanner of other gaps yields the same tokens, without errors if there are none before. -/
theorem Steps.rescan (steps : s.Steps ts e) (at_ : s.At source) (last : e.step = none)
    (rest : e.rest = []) (fine : e.errors = #[]) (like : s.Like s') {qs : List Piece}
    (respaced : List.Forall₂ Piece.Respaced (pieces source s.here ts) qs)
    (ahead : s'.rest = qs.flatMap fun q => q.text.toList) :
    ∃ us e', s'.Steps us e' ∧ e'.step = none ∧ e'.errors = #[] ∧
      us.map (fun t => (t.kind, t.text)) = ts.map fun t => (t.kind, t.text) := by
  -- One step leaves both scanners alike, each before its own text of the pieces that are left.
  induction steps generalizing s' qs with
  | refl s =>
      cases respaced
      have finished := like.finished.trans (finished_of_step_none last)
      have mode := like.normal (mode_of_step_none last)
      exact ⟨[], s', .refl s', step_of_finished (fun _ => ⟨ahead, mode⟩) finished, like.errors, rfl⟩
  | @cons s m e t ts first steps ih =>
      have stepped := step_stepped at_ first
      have passes := step_passes first
      rw [pieces_cons at_ first] at respaced
      cases respaced with
      | @cons _ q _ qs here behind =>
          have rejoined := rejoined_of_respaced behind
          have onward := steps.rest_eq stepped.yields.at_
          rw [rest, List.append_nil] at onward
          rw [← onward] at rejoined
          rw [List.flatMap_cons, Piece.text, String.toList_append, here.token,
            List.append_assoc] at ahead
          have blank : ∀ c ∈ q.gap.toList, Text.isBlank c = true := by
            rcases here.gap with same | ⟨_, blank, _⟩
            · rw [same, String.toList_ofList]
              exact fun c mem => isBlank_of_mem_gap mem
            · exact blank
          have inside : s.mode ≠ .normal → q.gap.toList = [] := fun inside => by
            rcases here.gap with same | ⟨outside, _⟩
            · rw [same, String.toList_ofList, gap_of_inside inside]
            · rw [passes.inside.mpr inside] at outside
              cases outside
          have ended : t.kind = .eof → (qs.flatMap fun q => q.text.toList) = [] := fun eof => by
            obtain ⟨finished, none, mode, _⟩ := stepped.last eof
            cases steps.eq_nil (step_of_finished (fun _ => ⟨none, mode⟩) finished)
            cases behind
            rfl
          obtain ⟨⟨u, m'⟩, step, again⟩ := step_rereads like first (steps.errors fine) blank inside
            ahead rejoined ended (steps.onward stepped.yields.at_ last fine behind)
          obtain ⟨us, e', steps', none, errors, same⟩ :=
            ih stepped.yields.at_ last rest fine again.like behind again.rest
          refine ⟨u :: us, e', .cons step steps', none, errors, ?_⟩
          rw [List.map_cons, List.map_cons, same, again.kind, again.text]

end Scanner

end JassSyntax
