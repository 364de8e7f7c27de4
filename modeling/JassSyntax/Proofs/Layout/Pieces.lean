import JassSyntax.Proofs.Spans.Scanning

/-!
# The pieces of a text

A text is made of pieces, each a token behind a gap of white space. No gap lies inside a string or a
block comment. The tokens are what a scanner yields step by step, and it stops behind the end of
input.
-/

namespace JassSyntax

namespace Kind

/-- Tokens that go on with a string or a block comment, or close it. -/
def isInside : Kind → Bool
  | .stringContent | .stringEnd | .blockCommentContent | .blockCommentEnd => true
  | _ => false

/-- Tokens that a string or a block comment goes on after. -/
def leadsInside : Kind → Bool
  | .stringStart | .stringContent | .blockCommentStart | .blockCommentContent => true
  | _ => false

end Kind

/-- A token with the text between the token before it and itself. -/
structure Piece where
  gap : String
  token : Token

/-- The text of gap and token. -/
def Piece.text (p : Piece) : String := p.gap ++ p.token.text

/-- The gap is white space, and there is none inside a string or a block comment. -/
structure Piece.Parted (p : Piece) : Prop where
  blank : ∀ c ∈ p.gap.toList, Text.isBlank c = true
  inside : p.token.kind.isInside = true → p.gap = ""

/-- The pieces of a text from a place on. -/
def pieces (source : String) (from_ : Position) : List Token → List Piece
  | [] => []
  | t :: ts => ⟨Span.text ⟨from_, t.span.start⟩ source, t⟩ :: pieces source t.span.stop ts

namespace Scanner

variable {source : String} {s s' e : Scanner} {t : Token} {ts : List Token}

/-! ## One step -/

/-- The white space that is passed over before the next token. -/
def gap (s : Scanner) : List Char :=
  if s.mode = .normal then s.rest.takeWhile Text.isBlank else []

theorem isBlank_of_mem_gap {c : Char} (h : c ∈ s.gap) : Text.isBlank c = true := by
  unfold gap at h
  split at h
  · exact List.all_eq_true.mp List.all_takeWhile c h
  · cases h

/-- The next token lies behind the gap and ends where the next scanner stands. -/
structure Passes (s : Scanner) (t : Token) (s' : Scanner) : Prop where
  rest : s.rest = s.gap ++ (t.text.toList ++ s'.rest)
  start : t.span.start = s.here.afterAll s.gap
  stop : t.span.stop = s'.here
  inside : t.kind.isInside = true ↔ s.mode ≠ .normal
  leads : t.kind.leadsInside = true ↔ s'.mode ≠ .normal

theorem passes_yield {kind : Kind} {n : Nat} (r : Scanner) (rest : s.rest = s.gap ++ r.rest)
    (here : r.here = s.here.afterAll s.gap) (inside : kind.isInside = true ↔ s.mode ≠ .normal)
    (leads : kind.leadsInside = true ↔ s'.mode ≠ .normal)
    (after : s'.rest = (r.yield kind n).2.rest) (place : s'.here = (r.yield kind n).2.here) :
    Passes s (r.yield kind n).1 s' where
  rest := by
    rw [rest, after]
    simp [yield]
  start := here
  stop := place.symm
  inside := inside
  leads := leads

theorem leadsInside_leading (afterOperand : Bool) (cs : List Char) (c : Char) (start : Position) :
    (Lexeme.leading afterOperand cs).1.isInside = false ∧
      ((Lexeme.leading afterOperand cs).1.leadsInside = true ↔
        modeAfter (Lexeme.leading afterOperand cs).1 c start ≠ .normal) := by
  have all : ∀ k ∈ Lexeme.beginnings, k.isInside = false ∧
      (k.leadsInside = true ↔ k = .blockCommentStart) ∧ k ≠ .stringStart := by decide
  rcases Lexeme.leading_kind afterOperand cs with h | ⟨h, _⟩
  · obtain ⟨inside, leads, other⟩ := all _ h
    refine ⟨inside, leads.trans ?_⟩
    generalize (Lexeme.leading afterOperand cs).1 = k at other
    unfold modeAfter
    cases k <;> simp_all
  · rw [h]
    exact ⟨rfl, by simp [modeAfter, Kind.leadsInside]⟩

theorem gap_of_inside (inside : s.mode ≠ .normal) : s.gap = [] := if_neg inside

theorem stepNormal_passes (mode : s.mode = .normal) (step : s.stepNormal = some (t, s')) :
    Passes s t s' := by
  have gap : s.gap = s.rest.takeWhile Text.isBlank := if_pos mode
  have rest : s.rest = s.gap ++ s.skipBlanks.rest := by
    rw [gap]
    exact List.takeWhile_append_dropWhile.symm
  have here : s.skipBlanks.here = s.here.afterAll s.gap := by rw [gap]; rfl
  unfold stepNormal at step
  dsimp only at step
  split at step
  · split at step
    · cases step
    cases step
    exact passes_yield { s.skipBlanks with finished := true } rest here
      (by simp [Kind.isInside, mode]) (by simp [Kind.leadsInside, skipBlanks, mode]) rfl rfl
  · next c _ _ =>
    obtain ⟨inside, leads⟩ := leadsInside_leading s.skipBlanks.afterOperand s.skipBlanks.rest c
      s.skipBlanks.here
    cases step
    refine passes_yield s.skipBlanks rest here (by simp [inside, mode]) (leads.trans ?_) ?_ ?_
    all_goals split <;> rfl

/-- Inside a string or a comment no white space is passed over. -/
theorem passes_inside {kind : Kind} {n : Nat} (r : Scanner) (mode : s.mode ≠ .normal)
    (rest : r.rest = s.rest) (here : r.here = s.here) (inside : kind.isInside = true)
    (leads : kind.leadsInside = true ↔ r.mode ≠ .normal) :
    Passes s (r.yield kind n).1 (r.yield kind n).2 :=
  passes_yield r (by rw [gap_of_inside mode, rest]; rfl) (by rw [gap_of_inside mode, here]; rfl)
    (iff_of_true inside mode) leads rfl rfl

theorem stepComment_passes {start : Position} (mode : s.mode = .inBlockComment start) :
    Passes s (s.stepComment start).1 (s.stepComment start).2 := by
  have inside : s.mode ≠ .normal := by rw [mode]; exact ScanMode.noConfusion
  unfold stepComment
  split
  · exact passes_inside _ inside rfl rfl rfl (by simp [Kind.leadsInside, enter])
  · exact passes_inside _ inside rfl rfl rfl (by simp [Kind.leadsInside, enter])
  · exact passes_inside _ inside rfl rfl rfl (iff_of_true rfl inside)

theorem stepString_passes {quote : Char} {start : Position}
    (mode : s.mode = .inString quote start) :
    Passes s (s.stepString quote start).1 (s.stepString quote start).2 := by
  have inside : s.mode ≠ .normal := by rw [mode]; exact ScanMode.noConfusion
  unfold stepString
  split
  · exact passes_inside _ inside rfl rfl rfl (by simp [Kind.leadsInside, enter])
  split
  · exact passes_inside _ inside rfl rfl rfl (by simp [Kind.leadsInside, enter])
  split
  · exact passes_inside _ inside rfl rfl rfl (by simp [Kind.leadsInside, enter])
  · exact passes_inside _ inside rfl rfl rfl (iff_of_true rfl inside)

theorem step_passes (step : s.step = some (t, s')) : Passes s t s' := by
  unfold Scanner.step at step
  split at step
  · next mode => exact stepNormal_passes mode step
  · next mode =>
    have passes := stepComment_passes mode
    rwa [Option.some.inj step] at passes
  · next mode =>
    have passes := stepString_passes mode
    rwa [Option.some.inj step] at passes

/-! ## All steps -/

/-- From one scanner to the other the tokens are yielded one by one. -/
inductive Steps : Scanner → List Token → Scanner → Prop
  | refl (s : Scanner) : Steps s [] s
  | cons {s m e : Scanner} {t : Token} {ts : List Token} (first : s.step = some (t, m))
      (rest : Steps m ts e) : Steps s (t :: ts) e

theorem steps_run (s : Scanner) (seen : Array Token) : ∃ ts, s.Steps ts (s.run seen).2 ∧
    (s.run seen).1.toList = seen.toList ++ ts ∧ (s.run seen).2.step = none := by
  fun_induction run s seen with
  | case1 s seen none => exact ⟨[], .refl s, (List.append_nil _).symm, none⟩
  | case2 s seen t s' step ih =>
      obtain ⟨ts, steps, all, none⟩ := ih
      refine ⟨t :: ts, .cons step steps, ?_, none⟩
      rw [all, Array.toList_push, List.append_assoc, List.singleton_append]

/-- Every chain of steps up to the last possible one is the run. -/
theorem Steps.run_eq (steps : s.Steps ts e) (last : e.step = none) (seen : Array Token) :
    s.run seen = (seen ++ ts.toArray, e) := by
  induction steps generalizing seen with
  | refl s =>
      rw [run]
      split
      · simp
      · next step => rw [last] at step; cases step
  | @cons s m e t ts first rest ih =>
      rw [run]
      split
      · next none => rw [first] at none; cases none
      · next u m' step =>
        cases first.symm.trans step
        rw [ih last]
        simp

/-- A scanner cannot yield more tokens than it has a budget for. -/
theorem Steps.length_le (steps : s.Steps ts e) : ts.length + e.budget ≤ s.budget := by
  induction steps with
  | refl s => simp
  | cons first rest ih =>
      have less := step_lt first
      rw [List.length_cons]
      omega

/-! ## Gaps -/

theorem pieces_cons (at_ : s.At source) (step : s.step = some (t, s')) (ts : List Token) :
    pieces source s.here (t :: ts) = ⟨String.ofList s.gap, t⟩ :: pieces source s'.here ts := by
  have passes := step_passes step
  obtain ⟨before, split, here⟩ := at_
  rw [passes.rest, ← List.append_assoc] at split
  have gap := Span.text_of_append split
  rw [Position.afterAll_append, ← here, ← passes.start] at gap
  rw [pieces, gap, passes.stop]

theorem Steps.parted (steps : s.Steps ts e) (at_ : s.At source) :
    ∀ p ∈ pieces source s.here ts, p.Parted := by
  induction steps with
  | refl s => intro p mem; cases mem
  | @cons s m e t ts first rest ih =>
      have passes := step_passes first
      rw [pieces_cons at_ first]
      refine List.forall_mem_cons.mpr
        ⟨⟨fun c mem => ?_, fun inside => ?_⟩, ih (step_stepped at_ first).yields.at_⟩
      · rw [String.toList_ofList] at mem
        exact isBlank_of_mem_gap mem
      · show String.ofList s.gap = ""
        rw [gap_of_inside (passes.inside.mp inside)]

/-- The pieces are all the text that the scanner walks over. -/
theorem Steps.rest_eq (steps : s.Steps ts e) (at_ : s.At source) :
    s.rest = (pieces source s.here ts).flatMap (fun p => p.text.toList) ++ e.rest := by
  induction steps with
  | refl s => rfl
  | @cons s m e t ts first rest ih =>
      have passes := step_passes first
      rw [pieces_cons at_ first, List.flatMap_cons, List.append_assoc,
        ← ih (step_stepped at_ first).yields.at_, passes.rest, Piece.text, String.toList_append,
        String.toList_ofList, List.append_assoc]

/-- What is inside a string or a block comment comes after its start or inside it, and nothing else
comes there. -/
theorem Steps.chained (steps : s.Steps ts e) :
    ts.IsChain fun t u => u.kind.isInside = t.kind.leadsInside := by
  induction steps with
  | refl s => exact .nil
  | @cons s m e t ts first rest ih =>
      cases rest with
      | refl => exact .singleton _
      | cons second rest =>
          refine .cons_cons (Bool.eq_iff_iff.mpr ?_) ih
          exact (step_passes second).inside.trans (step_passes first).leads.symm

end Scanner

/-! ## Texts -/

/-- What the tokens of a text are to the text. -/
structure Lossless (source : String) (tokens : List Token) : Prop where
  /-- The only end of input is the last token. It is empty and lies where the text ends. -/
  ended : ∃ front last, tokens = front ++ [last] ∧ (∀ t ∈ front, t.kind ≠ .eof) ∧
    last.kind = .eof ∧ last.span = Span.empty (Position.origin.afterAll source.toList)
  /-- A token lies on the characters of the text, and its own text is what lies there. -/
  sliced : ∀ t ∈ tokens, t.span.On source ∧ t.span.slice? source = some t.text
  ordered : tokens.Pairwise fun t u => t.span.stop.offset ≤ u.span.start.offset
  parted : ∀ p ∈ pieces source .origin tokens, p.Parted
  /-- The tokens inside strings and block comments are those that come after the start of one or
  inside one. -/
  chained : tokens.IsChain fun t u => u.kind.isInside = t.kind.leadsInside
  whole : String.join ((pieces source .origin tokens).map Piece.text) = source

namespace Scanner

theorem Ended.sliced {stop : Position} (ended : Ended source ts stop) :
    ∀ t ∈ ts, t.span.On source ∧ t.span.slice? source = some t.text := by
  intro t mem
  have here := (ended.laid.lies _ (List.mem_map_of_mem mem)).here
  exact ⟨here.on, here.token t rfl⟩

theorem Ended.ordered {stop : Position} (ended : Ended source ts stop) :
    ts.Pairwise fun t u => t.span.stop.offset ≤ u.span.start.offset :=
  List.pairwise_map.mp ended.laid.pairwise

end Scanner

/-- The tokens of a text come from steps of the scanner up to the last one. -/
theorem scan_steps (source : String) : ∃ last : Scanner,
    (Scanner.ofString source).Steps (scan source).1 last ∧ last.step = none ∧ last.rest = [] ∧
      (scan source).2 = last.errors.toList := by
  obtain ⟨ts, steps, all, none⟩ := Scanner.steps_run (Scanner.ofString source) #[]
  obtain ⟨seen, finished⟩ := Scanner.run_seen _ #[] (Scanner.seen_ofString source)
  have tokens : (scan source).1 = ts := all
  exact ⟨_, tokens ▸ steps, none, (seen.spent finished).1, rfl⟩

/-- **Scanning loses nothing and ends.** Step by step the scanner yields the tokens of the text, and
then no more. The tokens with the gaps before them are the text, and the gaps are white space
outside strings and block comments. -/
theorem scan_lossless (source : String) :
    (∃ last : Scanner, (Scanner.ofString source).Steps (scan source).1 last ∧ last.step = none) ∧
      (scan source).1.length ≤ 2 * source.length + 1 ∧ Lossless source (scan source).1 := by
  obtain ⟨last, steps, none, rest, _⟩ := scan_steps source
  have ended := scan_ended source
  have at_ := Scanner.at_ofString source
  have budget : (Scanner.ofString source).budget = 2 * source.length + 1 := by
    simp [Scanner.budget, Scanner.ofString, String.length_toList]
  refine ⟨⟨last, steps, none⟩, ?_, ended.last, ended.sliced, ended.ordered, steps.parted at_,
    steps.chained, ?_⟩
  · have length := steps.length_le
    omega
  · have whole := steps.rest_eq at_
    rw [rest, List.append_nil] at whole
    rw [← String.toList_inj, String.toList_join, List.flatMap_map]
    exact whole.symm

end JassSyntax
