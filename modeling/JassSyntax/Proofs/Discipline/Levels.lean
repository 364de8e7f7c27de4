import JassSyntax.Proofs.Discipline.Checks

/-!
# No check fails

What is checked holds of everything that is read, so two readings that differ in their checks alone
go on alike. The relation between them is that they are the same and stand at the depth that the
calls in progress ask for. It carries over from each level to the one above.
-/

namespace JassSyntax

open Level
open JassSyntax.Parser (Agrees)

/-- Two loops are the same whose steps are the same wherever the loop comes. -/
theorem Loop.run_congr {α : Type} {size : α → Nat} {step step' : α → α × Bool} {P : α → Prop}
    (same : ∀ a, P a → step' a = step a) (keeps : ∀ a, P a → P (step a).1) {a : α} (start : P a) :
    run size step' a = run size step a := by
  fun_induction run size step a with
  | case1 a before next more ih =>
      rw [run, same a start, if_pos more]
      exact ih (keeps a start)
  | case2 a before next stop => rw [run, same a start, if_neg stop]

/-! ## Reading the same at the same depth -/

variable {limit calls : Nat} {astray u l : Level}

/-- The two readings are the same, and may go on inside of so many calls. -/
def steady (limit calls : Nat) : Simulation where
  Parsers p q := q = p ∧ p.Poised limit calls
  Frames f g := g = f ∧ f.parser.Poised limit calls
  Results _ e r := r = e ∧ e.2.Nested limit calls
  excess := 0
  agrees {p q} h := h.1 ▸ (Agrees.refl p).matched
  counting {f g f' g'} h _ rest := by
    obtain ⟨rfl, -⟩ := h
    exact rest (Agrees.refl _).matched rfl
  covering {e r e' r'} h _ rest := by
    obtain ⟨rfl, -⟩ := h
    exact rest (Agrees.refl _).matched
  start k h := ⟨congrArg (Parser.start · k) h.1, h.2⟩
  look {p q} h _ := ⟨congrArg (·.second.2) h.1,
    h.2.grows (f := p.start .program) (Grows.refl _).second⟩
  second {f g} h _ := ⟨congrArg (·.second.2) h.1, h.2.grows (Grows.refl f).second⟩
  bump {f g} role h _ := ⟨congrArg (Frame.bump · role) h.1, h.2.grows (Grows.refl f).bump⟩
  child {f g role read read'} h _ reads each := by
    obtain ⟨rfl, poised⟩ := h
    refine ⟨?_, poised.grows ((Grows.refl g).child reads)⟩
    unfold Frame.child
    rw [(each ⟨rfl, poised⟩).1]
  item {f g read read'} h _ _ reads each := by
    obtain ⟨rfl, poised⟩ := h
    have bumped : g.bump.parser.Poised limit calls := poised.grows (Grows.refl g).bump
    have same := (each ⟨rfl, bumped⟩).1
    refine ⟨?_, bumped.grows ((Grows.refl g.bump).child reads)⟩
    unfold Frame.child
    rw [same]
  wrap {e r k role} h _ := ⟨by rw [h.1], ⟨h.2.depth, h.2.within⟩, rfl⟩
  finish h := ⟨congrArg Frame.finish h.1, h.2.toNested⟩
  leaf {p q item} h head :=
    ⟨congrArg Parser.takeLeaf h.1, h.2.toNested.later (Reads.leaf head).later⟩
  block {f g h h' f' g' closers closer} outside closes nonempty closing inside each _ rest := by
    obtain ⟨rfl, poised⟩ := outside
    have entered : (g.entered closers).parser.Poised limit calls :=
      ⟨⟨poised.depth, poised.within⟩, poised.pending⟩
    obtain ⟨rfl, -⟩ := each ⟨rfl, entered⟩
    refine rest (Agrees.refl _).matched ⟨rfl, ?_⟩
    exact poised.grows (.block (.refl g) closes nonempty closing inside)
  skip {f g} c h here := ⟨congrArg (fun f => (f.complain c).skipAsError) h.1,
    h.2.grows ((Grows.refl f).skip here)⟩
  repair {f g} c role k h := ⟨congrArg (fun f => (f.complain c).insertMissing role k) h.1,
    h.2.grows (Grows.refl f).repair⟩
  absent {p q} c k h := ⟨by rw [h.1], h.2.toNested.later (p.later_complainAt _ _)⟩
  stray {p q} c h _ := by
    have complained := h.2.later (p.later_complainAt p.span c) rfl
    exact ⟨by rw [h.1], complained.grows (f := (p.complain c).start .error) (Grows.refl _).bump⟩
  unended more := absurd more (Nat.lt_irrefl 0)

namespace Level

/-- Whatever begins a statement, it becomes a node, so it takes the comments in front of it. -/
theorem isNode_statement (u : Level) (p : Parser) :
    (Statement.statement u p).1.isNode = true := by
  unfold Statement.statement
  split <;> first | rfl | (dsimp only; split <;> rfl)

/-! ### Calls -/

/-- Levels that read the same read operands and items the same too. -/
theorem Alike.operands (alike : u.Alike (steady limit calls) l) :
    u.OperandsAlike (steady limit calls) l :=
  ⟨alike.enclosed, alike.enclosed (by decide)⟩

theorem Alike.self (traced : u.Traced) : u.Alike (steady limit calls) u where
  traced := traced
  enclosed {power p _} _ h :=
    ⟨by rw [h.1], h.2.toNested.later (traced.binding power p).later⟩
  body {terminators f _} closing enclosed h :=
    ⟨by rw [h.1], h.2.grows (traced.body terminators f closing enclosed)⟩

/-- The checks around a call hold. -/
theorem Alike.watched (alike : u.Alike (steady limit calls) l) (astray : Level) :
    u.Alike (steady limit calls) (l.watched limit calls astray) where
  traced := alike.traced
  enclosed {power p q} loose h := by
    obtain ⟨same, nested⟩ := alike.enclosed loose h
    obtain ⟨rfl, poised⟩ := h
    have restored : q.Restored (l.binding power q) :=
      same ▸ .of_reads (alike.traced.binding power q) poised.pending
    exact ⟨(watched_binding poised restored).trans same, nested⟩
  body {terminators f g} closing enclosed h := by
    obtain ⟨same, after⟩ := alike.body closing enclosed h
    obtain ⟨rfl, poised⟩ := h
    have cleared : g.parser.Cleared (l.body terminators g).parser :=
      same ▸ .of_grows (alike.traced.body terminators g closing enclosed) poised.pending
    exact ⟨(watched_body poised cleared).trans same, after⟩

/-- So do those around a statement. -/
theorem Alike.watchedStatement (alike : u.Alike (steady limit calls) l) (astray : Level)
    {p : Parser} (poised : p.Poised limit calls) (here : p.kind ≠ .eof) :
    l.watchedStatement limit calls astray p = Statement.statement u p := by
  have same : Statement.statement l p = Statement.statement u p :=
    (Statement.statement_alike alike ⟨rfl, poised⟩ here).1
  have cleared : p.Cleared (Statement.statement l p).2 :=
    same ▸ .of_reads (Statement.statement_reads alike.traced p) poised.pending
      (isNode_statement u p)
  exact (watchedStatement_eq poised cleared).trans same

/-! ### Bodies -/

section Statements

variable {P : Parser → Prop} {read : Parser → Tree × Parser} {f : Frame}
  (same : ∀ p, P p → p.kind ≠ .eof → read p = Statement.statement u p)

include same

/-- Where statements are read the same, so are the rounds of a body. -/
theorem bodyStepBy_congr (construct : NodeKind) (terminators : List Kind) (holds : P f.parser) :
    Statement.bodyStepBy read construct terminators f =
      Statement.bodyStep u construct terminators f := by
  rw [← Statement.bodyStepBy_statement]
  unfold Statement.bodyStepBy
  split
  · rfl
  next going =>
  have here : f.parser.kind ≠ .eof := fun eof => going (.inl eof)
  unfold Frame.child
  rw [same f.parser holds here]

/-- So are whole bodies. -/
theorem bodyBy_congr (traced : u.Traced)
    (keeps : ∀ {f g : Frame}, P f.parser → Grows f g → P g.parser) (terminators : List Kind)
    (holds : P f.parser) :
    Statement.bodyBy read terminators f = Statement.body u terminators f := by
  have steps : ∀ g : Frame, P g.parser →
      P (Statement.bodyStep u f.kind terminators g).1.parser := fun g holds =>
    keeps holds (Statement.bodyStep_grows traced f.kind terminators g)
  unfold Statement.bodyBy Statement.body Frame.loop
  rw [Loop.run_congr (fun _ => bodyStepBy_congr same f.kind terminators) steps
    (a := f.parser.start .block) holds]

/-- So are the statements of a program. -/
theorem stepBy_congr (holds : P f.parser) : Program.stepBy read f = Program.step u f := by
  unfold Program.stepBy Program.step
  dsimp only
  split
  · rfl
  next here =>
  unfold Frame.child
  rw [same f.parser holds here]

theorem loop_stepBy_congr (traced : u.Traced)
    (keeps : ∀ {f g : Frame}, P f.parser → Grows f g → P g.parser) (holds : P f.parser) :
    f.loop (Program.stepBy read) = f.loop (Program.step u) :=
  Loop.run_congr (fun _ => stepBy_congr same)
    (fun g holds => keeps holds (Program.step_grows traced g)) holds

end Statements

/-- The grammar around levels that read the same. -/
theorem Alike.grammar (alike : u.Alike (steady limit calls) l) (astray : Level) :
    (grammar (Statement.statement u) u).Alike (steady limit calls)
      (grammar (l.watchedStatement limit calls astray) l) where
  traced :=
    { binding := Expression.binding_reads alike.traced
      body := fun terminators f _ _ => by
        show Grows f (Statement.bodyBy _ terminators f)
        rw [Statement.bodyBy_statement]
        exact Statement.body_grows alike.traced terminators f }
  enclosed {power _ _} _ h := Expression.binding_alike alike alike.operands power h
  body {terminators f g} _ _ h := by
    obtain ⟨rfl, poised⟩ := h
    show Statement.bodyBy _ terminators g = Statement.bodyBy _ terminators g ∧
      (Statement.bodyBy _ terminators g).parser.Poised limit calls
    rw [Statement.bodyBy_statement]
    have same := bodyBy_congr (fun _ => alike.watchedStatement astray) alike.traced
      Parser.Poised.grows terminators poised
    exact ⟨same, poised.grows (Statement.body_grows alike.traced terminators g)⟩

/-! ### Descending -/

/-- One level deeper there is one call more. -/
theorem Alike.nested (alike : u.Alike (steady limit (calls + 1)) l) (room : calls < limit)
    (traced : (nested limit u).Traced) :
    (nested limit u).Alike (steady limit calls) (nested limit l) where
  traced := traced
  enclosed {power p q} loose h := by
    obtain ⟨rfl, poised⟩ := h
    have room : q.depth < limit := poised.depth.symm ▸ room
    obtain ⟨same, after⟩ := alike.enclosed loose ⟨rfl, poised.descended room⟩
    rw [nested_binding_of_lt room, nested_binding_of_lt room, same]
    exact ⟨rfl, after.ascend⟩
  body {terminators f g} closing enclosed h := by
    obtain ⟨rfl, poised⟩ := h
    have room : g.parser.depth < limit := poised.depth.symm ▸ room
    obtain ⟨same, after⟩ := alike.body closing
      (f := { g with parser := g.parser.descended }) enclosed ⟨rfl, poised.descended room⟩
    rw [nested_body_of_lt room, nested_body_of_lt room, same]
    exact ⟨rfl, ⟨after.toNested.ascend, after.pending⟩⟩

/-- No check fails in any of the levels. -/
theorem watchedStack_alike (limit : Nat) (astray : Level) (room calls : Nat)
    (all : calls + room = limit) :
    (stack limit room).Alike (steady limit calls) (watchedStack limit astray room calls) := by
  -- The calls counted outside of a level and the room left inside of it always make up the limit.
  induction room generalizing calls with
  | zero => exact (Alike.self (cutOff_traced limit)).watched astray
  | succ room ih =>
      have inner := ih (calls + 1) (by omega)
      have inside := (inner.grammar astray).watched astray
      have traced := above_traced limit inner.traced
      rw [← nested_grammar] at traced
      have around := (inside.nested (by omega) traced).watched astray
      rw [nested_grammar] at around
      exact around

end Level

/-! ## Programs -/

/-- No check fails in a program. -/
theorem Program.watched_eq (limit : Nat) (astray : Level) (tokens : List Token) :
    watched limit astray tokens = parseWithin limit tokens := by
  have alike := watchedStack_alike limit astray limit 0 (Nat.zero_add limit)
  have start : (Parser.ofTokens tokens).Poised limit 0 := ⟨⟨rfl, Nat.zero_le limit⟩, rfl⟩
  unfold watched parseWithin
  dsimp only
  rw [loop_stepBy_congr (fun _ => alike.watchedStatement astray) alike.traced Parser.Poised.grows
    (f := (Parser.ofTokens tokens).start .program) start]

end JassSyntax
