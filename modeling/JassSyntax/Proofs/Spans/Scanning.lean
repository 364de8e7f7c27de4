import JassSyntax.Proofs.Spans.Laid
import JassSyntax.Token.Scanner

/-!
# Tokens in order

A scanner stands at a place of its text, and every token that it yields reaches from there, or from
behind white space, to where it stands next. So the tokens of a text are laid from its start to its
end, and the last of them, at the end, is the only end of input.
-/

namespace JassSyntax

/-! ## Kinds of lexemes -/

namespace Lexeme

/-- Kinds of tokens that lead into nothing. -/
def ordinary : List Kind :=
  [.lineComment, .float, .number, .identifier] ++ Kind.keywords ++ Kind.operators

theorem mem_ordinary_of_word? {cs : List Char} {k : Kind} {n : Nat} (h : word? cs = some (k, n)) :
    k ∈ ordinary := by
  unfold word? at h
  split at h
  · cases h
  split at h
  · cases h
    cases keyword : Kind.keyword? _ with
    | none => exact show Kind.identifier ∈ ordinary by decide
    | some k =>
        have mem := List.mem_of_find?_eq_some keyword
        exact List.mem_append_left _ (List.mem_append_right _ mem)
  · cases h

theorem mem_ordinary_of_operator? {cs : List Char} {k : Kind} {n : Nat}
    (h : operator? cs = some (k, n)) : k ∈ ordinary := by
  obtain ⟨o, found, same⟩ := Option.map_eq_some_iff.mp h
  cases same
  exact List.mem_append_right _ (List.mem_of_find?_eq_some found)

theorem mem_ordinary_of_numeral? {afterOperand : Bool} {cs : List Char} {k : Kind} {n : Nat}
    (h : numeral? afterOperand cs = some (k, n)) : k ∈ ordinary := by
  unfold numeral? Numeral.leading? at h
  split at h
  · split at h
    · cases h
      decide
    · split at h <;> cases h
      decide
  · cases h

theorem comment?_cases {cs : List Char} {k : Kind} {n : Nat} (h : comment? cs = some (k, n)) :
    k ∈ ordinary ∨ k = .blockCommentStart ∧ n = 2 ∧ ∃ rest, cs = '/' :: '*' :: rest := by
  unfold comment? at h
  split at h
  · cases h
    exact .inl (by decide)
  · cases h
    exact .inr ⟨rfl, rfl, _, rfl⟩
  · cases h

theorem openingQuote?_cases {cs : List Char} {k : Kind} {n : Nat}
    (h : openingQuote? cs = some (k, n)) :
    k = .stringStart ∧ n = 1 ∧ ∃ c rest, cs = c :: rest ∧ isQuote c = true := by
  unfold openingQuote? at h
  split at h
  · split at h
    · next quote =>
      cases h
      exact ⟨rfl, rfl, _, _, rfl, quote⟩
    · cases h
  · cases h

/-- A text begins with a token that leads into nothing, with a character that begins no token, or
with what opens a block comment or a string. -/
theorem leading_cases (afterOperand : Bool) (cs : List Char) :
    (leading afterOperand cs).1 ∈ ordinary ∨
      leading afterOperand cs = (.error, 1) ∨
      leading afterOperand cs = (.blockCommentStart, 2) ∧ (∃ rest, cs = '/' :: '*' :: rest) ∨
      leading afterOperand cs = (.stringStart, 1) ∧
        ∃ c rest, cs = c :: rest ∧ isQuote c = true := by
  unfold leading
  rcases h : comment? cs <|> openingQuote? cs <|> numeral? afterOperand cs <|> word? cs
    <|> operator? cs with _ | ⟨k, n⟩
  · exact .inr (.inl rfl)
  simp only [Option.orElse_eq_orElse, Option.orElse_eq_or, Option.or_eq_some_iff] at h
  rcases h with h | ⟨-, h | ⟨-, h | ⟨-, h | ⟨-, h⟩⟩⟩⟩
  · rcases comment?_cases h with plain | ⟨rfl, rfl, opens⟩
    · exact .inl plain
    · exact .inr (.inr (.inl ⟨rfl, opens⟩))
  · obtain ⟨rfl, rfl, opens⟩ := openingQuote?_cases h
    exact .inr (.inr (.inr ⟨rfl, opens⟩))
  · exact .inl (mem_ordinary_of_numeral? h)
  · exact .inl (mem_ordinary_of_word? h)
  · exact .inl (mem_ordinary_of_operator? h)

/-- The kinds that a text can begin with, strings aside. -/
def beginnings : List Kind :=
  [.lineComment, .blockCommentStart, .float, .number, .identifier, .error] ++ Kind.keywords ++
    Kind.operators

/-- A text begins with a quote, or with a token of another kind. -/
theorem leading_kind (afterOperand : Bool) (cs : List Char) :
    (leading afterOperand cs).1 ∈ beginnings ∨
      (leading afterOperand cs).1 = .stringStart ∧ ∃ c ∈ cs.head?, isQuote c = true := by
  have sub : ∀ k ∈ ordinary, k ∈ beginnings := by decide
  rcases leading_cases afterOperand cs with
    plain | error | ⟨comment, _⟩ | ⟨string, c, rest, rfl, quote⟩
  · exact .inl (sub _ plain)
  · rw [error]
    exact .inl (by decide)
  · rw [comment]
    exact .inl (by decide)
  · rw [string]
    exact .inr ⟨rfl, c, rfl, quote⟩

/-- No text begins with an end of input. -/
theorem leading_ne_eof (afterOperand : Bool) (cs : List Char) :
    (leading afterOperand cs).1 ≠ .eof := by
  have none : ∀ k ∈ beginnings, k ≠ .eof := by decide
  rcases leading_kind afterOperand cs with h | ⟨h, _⟩
  · exact none _ h
  · rw [h]
    exact Kind.noConfusion

end Lexeme

namespace Scanner

variable {source : String} {s s' : Scanner} {t : Token}

/-! ## One token -/

/-- The scanner stands at a place of the text. -/
def At (source : String) (s : Scanner) : Prop :=
  ∃ before, source.toList = before ++ s.rest ∧ s.here = Position.origin.afterAll before

theorem at_ofString (source : String) : (ofString source).At source := ⟨[], rfl, rfl⟩

theorem At.skipBlanks (h : s.At source) : s.skipBlanks.At source := by
  obtain ⟨before, split, here⟩ := h
  refine ⟨before ++ s.rest.takeWhile Text.isBlank, ?_, ?_⟩
  · rw [split, List.append_assoc]
    exact congrArg (before ++ ·) List.takeWhile_append_dropWhile.symm
  · rw [Position.afterAll_append, ← here]
    rfl

theorem offset_le_skipBlanks (s : Scanner) : s.here.offset ≤ s.skipBlanks.here.offset := by
  show _ ≤ (s.here.afterAll _).offset
  rw [Position.offset_afterAll]
  omega

/-- From one scanner to the next the token is read. -/
structure Yields (source : String) (s : Scanner) (t : Token) (s' : Scanner) : Prop where
  at_ : s'.At source
  start : s.here.offset ≤ t.span.start.offset
  stop : t.span.stop = s'.here
  on : t.span.On source
  text : t.span.slice? source = some t.text

theorem yields_yield (h : s.At source) (kind : Kind) (n : Nat) :
    Yields source s (s.yield kind n).1 (s.yield kind n).2 := by
  obtain ⟨before, split, here⟩ := h
  have parts : source.toList = before ++ s.rest.take n ++ s.rest.drop n := by
    rw [List.append_assoc, List.take_append_drop, split]
  have stop : s.here.afterAll (s.rest.take n) =
      Position.origin.afterAll (before ++ s.rest.take n) := by
    rw [Position.afterAll_append, here]
  have span : (s.yield kind n).1.span = ⟨Position.origin.afterAll before,
      Position.origin.afterAll (before ++ s.rest.take n)⟩ := by
    rw [← stop, ← here]
    rfl
  have on := Span.on_of_append parts
  refine ⟨⟨before ++ s.rest.take n, parts, stop⟩, Nat.le_refl _, rfl, span ▸ on, ?_⟩
  rw [span, on.slice?, Span.text_of_append parts]
  rfl

/-- Only where the scanner stands counts. -/
theorem Yields.congr {r r' : Scanner} (h : Yields source r t r')
    (before : s.here.offset ≤ r.here.offset) (rest : s'.rest = r'.rest)
    (here : s'.here = r'.here) : Yields source s t s' where
  at_ := by
    obtain ⟨passed, split, place⟩ := h.at_
    exact ⟨passed, rest ▸ split, here.trans place⟩
  start := Nat.le_trans before h.start
  stop := h.stop.trans here.symm
  on := h.on
  text := h.text

/-- A scanner that has yielded the end of input has nothing left. -/
def Spent (s : Scanner) : Prop := s.finished = true → s.rest = [] ∧ s.mode = .normal

theorem step_of_finished (spent : s.Spent) (finished : s.finished = true) : s.step = none := by
  obtain ⟨rest, mode⟩ := spent finished
  have none : s.skipBlanks.rest = [] := by rw [skipBlanks, rest]; rfl
  have same : s.skipBlanks.finished = true := finished
  unfold step
  simp only [mode]
  unfold stepNormal
  simp only [none, same, if_true]

/-- What a step yields: the end of input behind everything, or a token of the text. -/
structure Stepped (source : String) (s : Scanner) (t : Token) (s' : Scanner) : Prop where
  yields : Yields source s t s'
  last : t.kind = .eof → s'.finished = true ∧ s'.rest = [] ∧ s'.mode = .normal ∧
    t.span = Span.empty s'.here
  more : t.kind ≠ .eof → s'.finished = s.finished

theorem stepNormal_stepped (h : s.At source) (mode : s.mode = .normal)
    (step : s.stepNormal = some (t, s')) : Stepped source s t s' := by
  have skipped := s.offset_le_skipBlanks
  unfold stepNormal at step
  dsimp only at step
  split at step
  · next none =>
    split at step
    · cases step
    cases step
    have yielded := yields_yield h.skipBlanks .eof 0
    refine ⟨yielded.congr skipped rfl rfl, fun _ => ⟨rfl, ?_, mode, rfl⟩, fun other => ?_⟩
    · exact none
    · exact absurd rfl other
  · next c rest _ =>
    cases step
    have other := Lexeme.leading_ne_eof s.skipBlanks.afterOperand s.skipBlanks.rest
    have yielded := yields_yield h.skipBlanks
      (Lexeme.leading s.skipBlanks.afterOperand s.skipBlanks.rest).1
      (Lexeme.leading s.skipBlanks.afterOperand s.skipBlanks.rest).2
    refine ⟨yielded.congr skipped ?_ ?_, fun eof => absurd eof other, fun _ => ?_⟩ <;>
      split <;> rfl

theorem stepComment_stepped (h : s.At source) (start : Position) :
    Stepped source s (s.stepComment start).1 (s.stepComment start).2 := by
  unfold stepComment
  split
  · exact ⟨(yields_yield h .blockCommentEnd 0).congr (Nat.le_refl _) rfl rfl,
      (fun eof => by cases eof), fun _ => rfl⟩
  · exact ⟨(yields_yield h .blockCommentEnd 2).congr (Nat.le_refl _) rfl rfl,
      (fun eof => by cases eof), fun _ => rfl⟩
  · exact ⟨yields_yield h .blockCommentContent _, (fun eof => by cases eof), fun _ => rfl⟩

theorem stepString_stepped (h : s.At source) (quote : Char) (start : Position) :
    Stepped source s (s.stepString quote start).1 (s.stepString quote start).2 := by
  unfold stepString
  split
  · exact ⟨(yields_yield h .stringEnd 0).congr (Nat.le_refl _) rfl rfl,
      (fun eof => by cases eof), fun _ => rfl⟩
  · split
    · exact ⟨(yields_yield h .stringEnd 0).congr (Nat.le_refl _) rfl rfl,
        (fun eof => by cases eof), fun _ => rfl⟩
    split
    · exact ⟨(yields_yield h .stringEnd 1).congr (Nat.le_refl _) rfl rfl,
        (fun eof => by cases eof), fun _ => rfl⟩
    · exact ⟨yields_yield h .stringContent _, (fun eof => by cases eof), fun _ => rfl⟩

theorem step_stepped (h : s.At source) (step : s.step = some (t, s')) : Stepped source s t s' := by
  unfold Scanner.step at step
  split at step
  · next mode => exact stepNormal_stepped h mode step
  · next start _ =>
    have stepped := stepComment_stepped h start
    rwa [Option.some.inj step] at stepped
  · next quote start _ =>
    have stepped := stepString_stepped h quote start
    rwa [Option.some.inj step] at stepped

/-! ## All tokens -/

/-- The tokens before the end of input are laid in the text, and the end of input comes last. -/
structure Ended (source : String) (ts : List Token) (stop : Position) : Prop where
  laid : Laid source 0 (tokenTrees ts) stop.offset
  last : ∃ front last, ts = front ++ [last] ∧ (∀ t ∈ front, t.kind ≠ .eof) ∧ last.kind = .eof ∧
    last.span = Span.empty stop

/-- What holds of a scanner and of the tokens that it has yielded. -/
structure Seen (source : String) (s : Scanner) (ts : List Token) : Prop where
  at_ : s.At source
  spent : s.Spent
  laid : Laid source 0 (tokenTrees ts) s.here.offset
  running : s.finished = false → ∀ t ∈ ts, t.kind ≠ .eof
  ended : s.finished = true → ∃ front last, ts = front ++ [last] ∧
    (∀ t ∈ front, t.kind ≠ .eof) ∧ last.kind = .eof ∧ last.span = Span.empty s.here

theorem seen_ofString (source : String) : Seen source (ofString source) [] :=
  ⟨at_ofString source, (fun finished => by cases finished), Nat.le_refl 0,
    (fun _ _ mem => by cases mem), (fun finished => by cases finished)⟩

theorem Seen.step {ts : List Token} (seen : Seen source s ts) (step : s.step = some (t, s')) :
    Seen source s' (ts ++ [t]) := by
  have going : s.finished = false := by
    refine Bool.eq_false_iff.mpr fun finished => ?_
    rw [step_of_finished seen.spent finished] at step
    cases step
  have stepped := step_stepped seen.at_ step
  have front := seen.running going
  have laid : Laid source 0 (tokenTrees (ts ++ [t])) s'.here.offset := by
    rw [tokenTrees, List.map_append]
    refine seen.laid.append (.single stepped.yields.start ?_ ?_)
    · exact Tree.lies_token stepped.yields.on stepped.yields.text none
    · exact Nat.le_of_eq (congrArg Position.offset stepped.yields.stop)
  by_cases eof : t.kind = .eof
  · obtain ⟨finished, rest, mode, span⟩ := stepped.last eof
    refine ⟨stepped.yields.at_, fun _ => ⟨rest, mode⟩, laid, fun going => ?_,
      fun _ => ⟨ts, t, rfl, front, eof, span⟩⟩
    rw [finished] at going
    cases going
  · have still : s'.finished = false := (stepped.more eof).trans going
    refine ⟨stepped.yields.at_, fun finished => ?_, laid, fun _ u mem => ?_, fun finished => ?_⟩
    · rw [still] at finished
      cases finished
    · rcases List.mem_append.mp mem with mem | mem
      · exact front u mem
      · rw [List.mem_singleton.mp mem]
        exact eof
    · rw [still] at finished
      cases finished

/-- A scanner stops only behind the end of input. -/
theorem finished_of_step_none (step : s.step = none) : s.finished = true := by
  unfold Scanner.step at step
  split at step
  · unfold stepNormal at step
    dsimp only at step
    split at step
    · split at step
      · assumption
      · cases step
    · cases step
  · cases step
  · cases step

theorem run_seen (s : Scanner) (ts : Array Token) (seen : Seen source s ts.toList) :
    Seen source (s.run ts).2 (s.run ts).1.toList ∧ (s.run ts).2.finished = true := by
  fun_induction run s ts with
  | case1 s ts none => exact ⟨seen, finished_of_step_none none⟩
  | case2 s ts t s' step ih =>
      refine ih ?_
      rw [Array.toList_push]
      exact seen.step step

end Scanner

/-- The tokens of a text are laid in it from its start to its end, and the last one, at the end, is
the only end of input. -/
theorem scan_ended (source : String) : Scanner.Ended source (scan source).1
    (Position.origin.afterAll source.toList) := by
  obtain ⟨seen, finished⟩ := Scanner.run_seen _ #[] (Scanner.seen_ofString source)
  obtain ⟨before, split, here⟩ := seen.at_
  rw [(seen.spent finished).1, List.append_nil] at split
  rw [split, ← here]
  exact ⟨seen.laid, seen.ended finished⟩

end JassSyntax
