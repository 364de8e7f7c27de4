import JassSyntax.Proofs.Discipline.Levels
import JassSyntax.Proofs.Limit.Bodies
import JassSyntax.Proofs.Limit.Unreported

/-!
# Where bodies begin

Which kinds end a body shows in its construct and in the blocks around it. That these are closing
keywords is no matter of the one body but of all that has been read before, so a parser checks it
here at each of its bodies, and goes astray as soon as a check fails. Since it reads every program
as the parser does that checks nothing, no check ever fails. So wherever in a program a body begins
beyond the nesting limit, whole lists of statements are put aside there, and nothing else.
-/

namespace JassSyntax

open Level Phrase

/-! ## Readings that keep to something -/

namespace Parser

/-- What holds of a parser on its way, and inside every block that it enters. -/
structure Lasting (P : Parser → Prop) : Prop where
  later : ∀ {p q}, P p → p.Later q → P q
  entered : ∀ {p closers}, P p → (∀ k ∈ closers, k.isClosingKeyword = true) →
    P (p.enterBlock closers)

theorem Lasting.grows {P : Parser → Prop} (lasting : Lasting P) {f g : Frame} (h : P f.parser)
    (grown : Grows f g) : P g.parser :=
  lasting.later h grown.later

theorem lasting_closable : Lasting Closable where
  later := Closable.later
  entered {p closers} closable closing := by
    intro k mem
    rcases List.mem_append.mp mem with mem | mem
    · exact closable k mem
    · exact closing k mem

end Parser

/-- As `σ`, where besides `P` holds of the first reading. -/
def Simulation.keeping (σ : Simulation) (even : σ.excess = 0) {P : Parser → Prop}
    (lasting : Parser.Lasting P) : Simulation where
  Parsers p q := σ.Parsers p q ∧ P p
  Frames f g := σ.Frames f g ∧ P f.parser
  Results place e r := σ.Results place e r ∧ P e.2
  excess := σ.excess
  agrees h := σ.agrees h.1
  counting h grown rest :=
    ⟨σ.counting h.1 grown fun same kind => (rest same kind).1, lasting.grows h.2 grown⟩
  covering h covers rest :=
    ⟨σ.covering h.1 covers fun same => (rest same).1, lasting.later h.2 covers.later⟩
  start k h := ⟨σ.start k h.1, h.2⟩
  look {p q} h here :=
    ⟨σ.look h.1 here, lasting.grows (f := p.start .program) h.2 (Grows.refl _).second⟩
  second h here := ⟨σ.second h.1 here, lasting.grows h.2 (Grows.refl _).second⟩
  bump role h here := ⟨σ.bump role h.1 here, lasting.grows h.2 (Grows.refl _).bump⟩
  child h place reads each :=
    ⟨σ.child h.1 place reads fun related => (each ⟨related, h.2⟩).1,
      lasting.grows h.2 ((Grows.refl _).child reads)⟩
  item {f _ _ _} h list comma reads each := by
    have bumped : P f.bump.parser := lasting.grows h.2 (Grows.refl f).bump
    exact ⟨σ.item h.1 list comma reads fun related => (each ⟨related, bumped⟩).1,
      lasting.grows bumped ((Grows.refl _).child reads)⟩
  wrap h leads := ⟨σ.wrap h.1 leads, lasting.later h.2 ((Parser.Later.refl _).pending [])⟩
  finish h := ⟨σ.finish h.1, h.2⟩
  leaf h head := ⟨σ.leaf h.1 head, lasting.later h.2 (Reads.leaf head).later⟩
  block {f _ _ _ _ _ _ _} h closes nonempty closing inside each grown rest := by
    have left := lasting.grows h.2 (Grows.block (.refl f) closes nonempty closing inside)
    have entered := lasting.entered h.2 closing
    exact ⟨σ.block h.1 closes nonempty closing inside
        (fun related => (each ⟨related, entered⟩).1) grown
        fun same related => (rest same ⟨related, left⟩).1,
      lasting.grows left grown⟩
  skip c h here := ⟨σ.skip c h.1 here, lasting.grows h.2 ((Grows.refl _).skip here)⟩
  repair c role k h := ⟨σ.repair c role k h.1, lasting.grows h.2 (Grows.refl _).repair⟩
  absent {p _} c k h := ⟨σ.absent c k h.1, lasting.later h.2 (p.later_complainAt _ _)⟩
  stray {p _} c h here := by
    have complained := lasting.later h.2 (p.later_complainAt p.span c)
    exact ⟨σ.stray c h.1 here,
      lasting.grows (f := (p.complain c).start .error) complained (Grows.refl _).bump⟩
  unended more := absurd (even ▸ more) (Nat.lt_irrefl 0)

theorem Level.Alike.keeping {σ : Simulation} {u l : Level} (alike : u.Alike σ l)
    (even : σ.excess = 0) {P : Parser → Prop} (lasting : Parser.Lasting P) :
    u.Alike (σ.keeping even lasting) l where
  traced := alike.traced
  enclosed {power p _} loose h :=
    ⟨alike.enclosed loose h.1, lasting.later h.2 (alike.traced.binding power p).later⟩
  body {terminators f _} closing enclosed h :=
    ⟨alike.body closing enclosed h.1,
      lasting.grows h.2 (alike.traced.body terminators f closing enclosed)⟩

/-! ## The parser that checks where bodies begin -/

namespace Level

/-- A level that checks where its bodies begin. -/
noncomputable def checked (u astray : Level) : Level where
  binding := u.binding
  body terminators :=
    guarded (Frame.AwaitsBody terminators) (fun _ _ => True) (astray.body terminators)
      (u.body terminators)

/-- As `stack`, with a check at every body. -/
noncomputable def checkedStack (limit : Nat) (astray : Level) : Nat → Level
  | 0 => (cutOff limit).checked astray
  | room + 1 => ((checkedStack limit astray room).above limit).checked astray

end Level

/-- As `parseWithin`, with a check at every body. -/
noncomputable def Program.checked (limit : Nat) (astray : Level) (tokens : List Token) :
    Tree × List ParseError :=
  let inner := Level.checkedStack limit astray limit
  let f := ((Parser.ofTokens tokens).start .program).loop (step inner)
  (finish f, f.parser.errors.toList)

/-! ## No check fails -/

variable {limit calls : Nat} {terminators : List Kind} {astray u l : Level} {f : Frame}

/-- The two readings are the same, inside of so many calls and up to closing keywords. -/
def orderly (limit calls : Nat) : Simulation :=
  (steady limit calls).keeping rfl Parser.lasting_closable

/-- Where a parser of an orderly reading is. -/
structure Parser.Orderly (limit calls : Nat) (p : Parser) : Prop extends p.Poised limit calls where
  closable : p.Closable

theorem Parser.Orderly.grows {f g : Frame} (h : f.parser.Orderly limit calls) (grown : Grows f g) :
    g.parser.Orderly limit calls :=
  ⟨h.toPoised.grows grown, h.closable.later grown.later⟩

namespace Level

theorem checked_body (awaits : f.AwaitsBody terminators) :
    (u.checked astray).body terminators f = u.body terminators f :=
  if_pos ⟨awaits, trivial⟩

theorem Alike.checked (alike : u.Alike (orderly limit calls) l) (astray : Level) :
    u.Alike (orderly limit calls) (l.checked astray) where
  traced := alike.traced
  enclosed := alike.enclosed
  body {terminators f g} closing enclosed h := by
    obtain ⟨⟨same, poised⟩, closable⟩ := alike.body closing enclosed h
    obtain ⟨⟨rfl, before⟩, closers⟩ := h
    have awaits : g.AwaitsBody terminators := ⟨closing, closers, before.pending⟩
    exact ⟨⟨(checked_body awaits).trans same, poised⟩, closable⟩

theorem Alike.statement (alike : u.Alike (orderly limit calls) l) {p : Parser}
    (h : p.Orderly limit calls) (here : p.kind ≠ .eof) :
    Statement.statement l p = Statement.statement u p :=
  (Statement.statement_alike alike ⟨⟨rfl, h.toPoised⟩, h.closable⟩ here).1.1

/-- One level deeper there is one call more. -/
theorem Alike.above (alike : u.Alike (orderly limit (calls + 1)) l) (room : calls < limit) :
    (u.above limit).Alike (orderly limit calls) (l.above limit) where
  traced := above_traced limit alike.traced
  enclosed {power p q} loose h := by
    obtain ⟨⟨rfl, poised⟩, closable⟩ := h
    have room : q.depth < limit := poised.depth.symm ▸ room
    have operands : u.OperandsAlike (orderly limit (calls + 1)) l :=
      ⟨alike.enclosed, alike.enclosed (by decide)⟩
    obtain ⟨⟨same, after⟩, closers⟩ := Expression.binding_alike alike operands power
      (p := q.descended) ⟨⟨rfl, poised.descended room⟩, closable⟩
    rw [← nested_grammar, ← nested_grammar, nested_binding_of_lt room, nested_binding_of_lt room]
    unfold Level.grammar
    dsimp only
    rw [same]
    exact ⟨⟨rfl, after.ascend⟩, closers⟩
  body {terminators f g} closing enclosed h := by
    obtain ⟨⟨rfl, poised⟩, closable⟩ := h
    have room : g.parser.depth < limit := poised.depth.symm ▸ room
    let inside : Frame := { g with parser := g.parser.descended }
    have here : inside.parser.Orderly limit (calls + 1) := ⟨poised.descended room, closable⟩
    have same : Statement.bodyBy (Statement.statement l) terminators inside =
        Statement.body u terminators inside :=
      bodyBy_congr (fun _ => alike.statement) alike.traced Parser.Orderly.grows terminators here
    have after := here.grows (Statement.body_grows alike.traced terminators inside)
    rw [← nested_grammar, ← nested_grammar, nested_body_of_lt room, nested_body_of_lt room]
    unfold Level.grammar
    dsimp only
    rw [same, Statement.bodyBy_statement]
    exact ⟨⟨rfl, after.ascend, after.pending⟩, after.closable⟩

/-- No check fails in any of the levels. -/
theorem checkedStack_alike (limit : Nat) (astray : Level) (room calls : Nat)
    (all : calls + room = limit) :
    (stack limit room).Alike (orderly limit calls) (checkedStack limit astray room) := by
  induction room generalizing calls with
  | zero =>
      have bottom : (cutOff limit).Alike (steady limit calls) (cutOff limit) :=
        .self (cutOff_traced limit)
      exact (bottom.keeping rfl Parser.lasting_closable).checked astray
  | succ room ih => exact ((ih (calls + 1) (by omega)).above (by omega)).checked astray

end Level

/-- No check fails in a program. -/
theorem Program.checked_eq (limit : Nat) (astray : Level) (tokens : List Token) :
    checked limit astray tokens = parseWithin limit tokens := by
  have alike := checkedStack_alike limit astray limit 0 (Nat.zero_add limit)
  have start : (Parser.ofTokens tokens).Orderly limit 0 :=
    ⟨⟨⟨rfl, Nat.zero_le limit⟩, rfl⟩, fun _ mem => by cases mem⟩
  have same := loop_stepBy_congr (fun _ => alike.statement) alike.traced Parser.Orderly.grows
    (f := (Parser.ofTokens tokens).start .program) start
  unfold checked parseWithin
  dsimp only
  rw [← same]
  rfl

/-! ## Bodies beyond the limit -/

/-- What becomes of the bodies for which the limit leaves no room, whatever `astray` does. -/
structure SkipsBodies (limit : Nat) (astray : Level) : Prop where
  /-- Wherever in a program a body begins, the frame awaits one. -/
  positions : ∀ tokens, Program.checked limit astray tokens = Program.parseWithin limit tokens
  /-- Where the limit is reached, a list of statements in front of a terminator is put aside. -/
  skips : ∀ {room terminators} {f : Frame} {items next rest}, limit ≤ f.parser.depth →
    f.AwaitsBody terminators → items ≠ [] → items.map Item.kind ∈ Phrase.grammar.language →
      f.parser.ahead.toList = items ++ next :: rest → next.kind ∈ terminators →
        f.PutsAside limit items next rest ((stack limit room).body terminators f)

/-- **Bodies beyond the nesting limit are skipped exactly.** At every place of every program where a
body begins and the limit leaves no room for it, a list of statements becomes one flat error node,
with all its tokens and comments and no others. The parser then stands at the terminator, at the
same depth and in the same blocks as before. -/
theorem bodies_skipped (limit : Nat) (astray : Level) : SkipsBodies limit astray where
  positions := Program.checked_eq limit astray
  skips {room _ _ _ _ _} := stack_body_putsAside room

/-- A loop in front of the `end` of a block is such a list of statements. -/
theorem while_skipped :
    let comment : Tree := .token none ⟨.lineComment, "// once", default⟩
    let items : List Item := [⟨[comment], .kwWhile, "while", default⟩,
      ⟨[], .identifier, "open", default⟩, ⟨[], .kwDo, "do", default⟩,
      ⟨[], .kwBreak, "break", default⟩, ⟨[], .kwEnd, "end", default⟩]
    let closer : Item := ⟨[], .kwEnd, "end", default⟩
    let p : Parser :=
      { ahead := .ofList (items ++ [closer]), trailing := [], eof := none,
        openClosers := [.kwEnd], depth := Program.maxDepth }
    let f := p.start .doStatement
    f.AwaitsBody [.kwEnd] ∧ items.map Item.kind ∈ Phrase.grammar.language ∧
      f.PutsAside Program.maxDepth items closer []
        ((stack Program.maxDepth 0).body [.kwEnd] f) := by
  intro comment items closer p f
  have closing : ∀ k ∈ [Kind.kwEnd], k.isClosingKeyword = true := by decide
  have awaits : f.AwaitsBody [.kwEnd] := ⟨closing, closing, rfl⟩
  have word : items.map Item.kind ∈ Phrase.grammar.language := by
    have name : [.terminal .identifier] ∈ expression.rules := by decide
    have leaves : [.terminal .kwBreak] ∈ statement.rules := by decide
    have condition := derives_phrase (v := [.identifier]) name (.refl _)
    have body := derives_statements (v := [.kwBreak]) leaves (.refl _)
    have behind := derives_append body (w := [.kwEnd]) (.refl _)
    have after := derives_append condition (derives_append (v := [.kwDo]) (.refl _) behind)
    exact derives_statements (by decide) (derives_append (v := [.kwWhile]) (.refl _) after)
  refine ⟨awaits, word, ?_⟩
  apply (bodies_skipped Program.maxDepth (cutOff 0)).skips
  · exact Nat.le_refl _
  · exact awaits
  · exact List.cons_ne_nil _ _
  · exact word
  · rfl
  · exact List.mem_singleton_self _

end JassSyntax
