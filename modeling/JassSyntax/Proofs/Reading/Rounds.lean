import JassSyntax.Proofs.Reading.Conservation
import JassSyntax.Proofs.Views.Trees

/-!
# Rounds

`Loop.run` also stops when a round has used nothing up. No loop of the grammar needs that: each of
its rounds takes a token or is the last, so repeating the step alone comes to an end, and to the
same one. The measure is what remains ahead of the parser, and a construct inside a round uses
something up because the kinds that may begin it are kinds that it takes.
-/

namespace JassSyntax

/-! ## Loops that end by themselves -/

namespace Loop

variable {α : Type}

/-- Repeating the step from the first state on ends at the second, after a round that does not ask
for another. -/
inductive Ends (step : α → α × Bool) : α → α → Prop
  | stop {a : α} (last : (step a).2 = false) : Ends step a (step a).1
  | next {a b : α} (goes : (step a).2 = true) (rest : Ends step (step a).1 b) : Ends step a b

/-- Every round uses something up or is the last, and so the loop ends by itself. -/
structure Finishes (size : α → Nat) (step : α → α × Bool) : Prop where
  consumes : ∀ a, (step a).2 = true → size (step a).1 < size a
  ends : ∀ a, Ends step a (run size step a)

theorem Finishes.of_consumes {size : α → Nat} {step : α → α × Bool}
    (consumes : ∀ a, (step a).2 = true → size (step a).1 < size a) : Finishes size step where
  consumes := consumes
  ends a := by
    fun_induction run size step a with
    | case1 a before next h ih => exact .next h.2 ih
    | case2 a before next h =>
      refine .stop (Bool.eq_false_iff.mpr fun goes => ?_)
      exact h ⟨consumes a goes, goes⟩

end Loop

/-- Every round of the step takes a token or is the last. -/
def Frame.Finishes (step : Frame → Frame × Bool) : Prop :=
  Loop.Finishes (fun f => f.parser.remaining) step

/-! ## The rounds of every loop -/

namespace Frame

/-- One part and the comma after it. -/
def commaStep (part : Frame → Frame) (f : Frame) : Frame × Bool := (part f).eat .comma

/-- One token, if its kind passes. -/
def passStep (role : Option Role) (passes : Kind → Bool) (f : Frame) : Frame × Bool :=
  if passes f.current then (f.bump role, true) else (f, false)

/-- One parameter and the comma after it. -/
def parameterStep (f : Frame) : Frame × Bool :=
  if f.current = .identifier then (f.child none parameter).eat .comma else (f, false)

/-- A comma that lets a list go on is used up. -/
theorem eat_remaining_lt {f : Frame} {kind : Kind} (here : kind ≠ .eof)
    (goes : (f.eat kind).2 = true) : (f.eat kind).1.parser.remaining < f.parser.remaining := by
  rcases f.eat_cases kind with ⟨current, h⟩ | ⟨_, h⟩ <;> rw [h] at goes ⊢
  · exact remaining_bump_lt (current ▸ here)
  · cases goes

theorem commaStep_finishes {part : Frame → Frame} (grows : ∀ f, Grows f (part f)) :
    Finishes (commaStep part) :=
  .of_consumes fun f goes =>
    Nat.lt_of_lt_of_le (eat_remaining_lt (by decide) goes) (grows f).later.remaining_le

theorem passStep_finishes (role : Option Role) (passes : Kind → Bool)
    (stops : passes .eof = false) : Finishes (passStep role passes) := by
  refine .of_consumes fun f goes => ?_
  unfold passStep at goes ⊢
  split at goes
  · next pass =>
    rw [if_pos pass]
    refine remaining_bump_lt fun eof => ?_
    rw [eof, stops] at pass
    cases pass
  · cases goes

theorem parameterStep_finishes : Finishes parameterStep := by
  refine .of_consumes fun f goes => ?_
  unfold parameterStep at goes ⊢
  split at goes
  · next name =>
    rw [if_pos name]
    exact Nat.lt_of_lt_of_le (eat_remaining_lt (by decide) goes)
      (parameter_reads f.parser).later.remaining_le
  · cases goes

end Frame

/-! ### Expressions -/

variable {inner : Level}

namespace Expression

theorem listStep_finishes (traced : inner.Traced) : Frame.Finishes (listStep inner) := by
  refine .of_consumes fun f goes => ?_
  unfold listStep at goes ⊢
  split at goes
  · next comma =>
    rw [if_pos comma]
    exact ((Grows.refl f.bump).child (traced.binding _ _)).remaining_lt (by rw [comma]; decide)
  · cases goes

theorem tableStep_finishes (traced : inner.Traced) : Frame.Finishes (tableStep inner) := by
  refine .of_consumes fun f goes => ?_
  unfold tableStep at goes ⊢
  split at goes
  · next separator =>
    rw [if_pos separator]
    exact Frame.remaining_skipAsError_lt (f := f.complain .noTableField)
      (Kind.ne_eof_of_separator separator)
  · next inside =>
    rw [if_neg inside]
    dsimp only at goes ⊢
    split at goes
    · next begins =>
      rw [if_pos begins]
      have value : Grows (f.parser.start .field) ((tableKey inner (f.parser.start .field)).1.child
          (some .value) (inner.binding (Power.assignment + 1))) :=
        (tableKey_grows traced _).child (traced.binding _ _)
      split at goes
      · next separator =>
        rw [if_pos separator]
        exact Nat.lt_of_lt_of_le (Frame.remaining_bump_lt (Kind.ne_eof_of_separator separator))
          value.later.remaining_le
      · cases goes
    · cases goes

/-- What extends an operand is used up. -/
theorem extend_finishes (traced : inner.Traced) :
    Loop.Finishes (fun e : Operand => e.parser.remaining) (extend inner) := by
  refine .of_consumes fun e goes => ?_
  have taken : ∀ {kind : NodeKind} {k : Kind} {f : Frame}, e.parser.kind = k → k ≠ .eof →
      Grows (e.base kind).bump f → f.parser.remaining < e.parser.remaining :=
    fun {kind _ _} here other grown =>
      grown.remaining_lt (f := e.base kind) (fun eof => other (here.symm.trans eof))
  unfold extend at goes ⊢
  split at goes
  · next here _ => exact taken here (by decide) (Grows.refl _).expectName
  · next here _ => exact taken here (by decide) ((Grows.refl _).child (traced.binding _ _)).expect
  · next here _ => exact taken here (by decide) (methodCall_takes traced _)
  · next here =>
    exact Frame.remaining_bump_lt (f := (e.parser.start .updateExpression).attach _ e.tree)
      (fun eof => absurd (here.symm.trans eof) (by decide))
  · next here =>
    exact Frame.remaining_bump_lt (f := (e.parser.start .updateExpression).attach _ e.tree)
      (fun eof => absurd (here.symm.trans eof) (by decide))
  · split at goes
    · next starts =>
      rw [if_pos starts]
      have here : (e.base .functionCall).current ≠ .eof := fun eof => by
        rw [show e.parser.kind = .eof from eof] at starts
        cases starts
      exact (arguments_begins traced (e.base .functionCall).parser).remaining_lt here
    · cases goes
  · cases goes

theorem join_finishes (traced : inner.Traced) (power : Nat) :
    Loop.Finishes (fun e : Tree × Parser => e.2.remaining) (join inner power) :=
  .of_consumes fun (_ : Tree × Parser) goes => join_remaining_lt traced goes

end Expression

/-! ### Statements -/

/-- Reading a body goes forward, wherever it is read. -/
def Level.Forward (inner : Level) : Prop :=
  ∀ terminators (f : Frame), f.parser.Later (inner.body terminators f).parser

namespace Statement

theorem memberStep_finishes : Frame.Finishes memberStep := by
  refine .of_consumes fun f goes => ?_
  unfold memberStep at goes ⊢
  split at goes
  · next dot =>
    rw [if_pos dot]
    exact (Grows.refl f.bump).expectName.remaining_lt (by rw [dot]; decide)
  · cases goes

theorem clauseStep_finishes (traced : inner.Traced) (forward : inner.Forward) :
    Frame.Finishes (clauseStep inner) := by
  refine .of_consumes fun f goes => ?_
  unfold clauseStep at goes ⊢
  split at goes
  · next clause =>
    rw [if_pos clause]
    have headed : (branch inner (f.parser.start .elseifClause)).parser.remaining <
        f.parser.remaining :=
      (branch_grows traced (f.parser.start .elseifClause)).remaining_lt
        (f := f.parser.start .elseifClause) (fun eof => absurd (clause.symm.trans eof) (by decide))
    exact Nat.lt_of_le_of_lt (forward Statement.branchEnds _).remaining_le headed
  · cases goes

theorem bodyStep_finishes (h : inner.Progresses) (construct : NodeKind) (terminators : List Kind) :
    Frame.Finishes (bodyStep inner construct terminators) := by
  refine .of_consumes fun f goes => ?_
  unfold bodyStep at goes ⊢
  dsimp only at goes ⊢
  split at goes
  · cases goes
  · next inside =>
    rw [if_neg inside]
    split
    · next starts => exact statement_remaining_lt h starts
    · exact Frame.remaining_skipAsError_lt (f := f.complain _) fun eof => inside (.inl eof)

end Statement

/-! ## Levels -/

namespace Level

theorem cutOff_forward (limit : Nat) : (cutOff limit).Forward := by
  intro terminators f
  rcases cutOff_body_cases limit terminators f with ⟨_, h⟩ | ⟨here, n, h⟩ <;> rw [h]
  · exact f.parser.later_complainTooDeep limit
  · refine Grows.later (f := f) ?_
    exact (Grows.refl f).child (.around .block rfl (.tooDeep here) (.refl _))

theorem stack_forward (limit room : Nat) : (stack limit room).Forward := by
  intro terminators f
  cases room with
  | zero => exact cutOff_forward limit terminators f
  | succ room =>
      rcases above_body_cases limit (stack limit room) terminators f with ⟨_, h⟩ | ⟨_, h⟩
      · rw [stack, h]
        exact cutOff_forward limit terminators f
      · rw [stack, h]
        exact ((Grows.refl f).nested
          (Statement.body_grows (stack_traced limit room) terminators _)).later

theorem regionLength_le (extent : Extent) (balance : Nat) (items : List Item) :
    regionLength extent balance items ≤ items.length := by
  induction items generalizing balance with
  | nil => exact Nat.le_refl 0
  | cons item items ih =>
      have rest := ih (balanceAfter balance item.token.kind)
      rw [regionLength, List.length_cons]
      dsimp only
      split
      · exact Nat.zero_le _
      · split <;> omega

/-- A region that is put aside is gone through item by item. -/
theorem remaining_skipTooDeep (limit : Nat) (extent : Extent) (p : Parser) :
    (skipTooDeep limit extent p).2.remaining + regionLength extent 0 p.ahead.toList =
      p.remaining := by
  have same : (complainTooDeep limit p).remaining = p.remaining := by
    rw [Parser.remaining, complainTooDeep_ahead]
    rfl
  rcases skipTooDeep_cases limit extent p with ⟨empty, h⟩ | ⟨n, length, h⟩ <;> rw [h]
  · rw [empty]
    exact same
  · have fits := regionLength_le extent 0 p.ahead.toList
    have rest := Frame.ahead_bumps ((complainTooDeep limit p).start .error) (n + 1)
    have ahead : ((complainTooDeep limit p).start .error).parser.ahead.toList = p.ahead.toList :=
      congrArg Counted.toList (complainTooDeep_ahead limit p)
    show Counted.length _ + _ = p.ahead.length
    rw [Counted.length_eq, Counted.length_eq, length]
    show (((complainTooDeep limit p).start .error).bumps (n + 1)).parser.ahead.toList.length + _ = _
    rw [rest, ahead, List.length_drop]
    omega

/-- Reading with `inner` for what lies inside comes to an end: constructs that begin at a token
take it, and every loop of the grammar finishes. -/
structure Finishes (inner : Level) : Prop where
  statement : ∀ p, p.kind.canStartStatement = true →
    (Statement.statement inner p).2.remaining < p.remaining
  expression : ∀ power p, p.kind.canStartExpression = true →
    (inner.binding power p).2.remaining < p.remaining
  program : Frame.Finishes (Program.step inner)
  statements : ∀ construct terminators,
    Frame.Finishes (Statement.bodyStep inner construct terminators)
  clauses : Frame.Finishes (Statement.clauseStep inner)
  members : Frame.Finishes Statement.memberStep
  parameters : Frame.Finishes Frame.parameterStep
  values : Frame.Finishes (Frame.commaStep fun f => f.child (some .value) inner.expression)
  modifiers : Frame.Finishes (Frame.passStep (some .modifier) Kind.isModifier)
  arrays : Frame.Finishes (Frame.passStep (some .modifier) (· = .kwArray))
  declarators : Frame.Finishes
    (Frame.commaStep fun f => f.child (some .declarator) (Statement.declarator inner))
  operators : ∀ power,
    Loop.Finishes (fun e : Tree × Parser => e.2.remaining) (Expression.join inner power)
  list : Frame.Finishes (Expression.listStep inner)
  extensions : Loop.Finishes (fun e : Operand => e.parser.remaining) (Expression.extend inner)
  arguments : Frame.Finishes (Frame.commaStep fun f => f.child none inner.expression)
  fields : Frame.Finishes (Expression.tableStep inner)
  /-- Suspicion moves to ever smaller bodies. -/
  blame : ∀ closer,
    Loop.Finishes (fun s : Suspect => (s.body.map Tree.size).getD 0) (Suspect.inward closer)
  /-- A region beyond the limit is put aside item by item. -/
  regions : ∀ limit extent p,
    (skipTooDeep limit extent p).2.remaining + regionLength extent 0 p.ahead.toList = p.remaining

theorem Progresses.finishes (h : inner.Progresses) (forward : inner.Forward) :
    inner.Finishes where
  statement _ starts := Statement.statement_remaining_lt h starts
  expression power p starts := h.binding power p starts
  program := .of_consumes fun _ goes => Program.step_remaining_lt h goes
  statements := Statement.bodyStep_finishes h
  clauses := Statement.clauseStep_finishes h.traced forward
  members := Statement.memberStep_finishes
  parameters := Frame.parameterStep_finishes
  values := Frame.commaStep_finishes fun g => (Grows.refl g).child (h.traced.binding _ _)
  modifiers := Frame.passStep_finishes _ Kind.isModifier rfl
  arrays := Frame.passStep_finishes _ (· = .kwArray) rfl
  declarators := Frame.commaStep_finishes fun g =>
    (Grows.refl g).child (Statement.declarator_reads h.traced _)
  operators := Expression.join_finishes h.traced
  list := Expression.listStep_finishes h.traced
  extensions := Expression.extend_finishes h.traced
  arguments := Frame.commaStep_finishes fun g => (Grows.refl g).child (h.traced.binding _ _)
  fields := Expression.tableStep_finishes h.traced
  blame _ := .of_consumes fun _ => Suspect.inward_size
  regions := remaining_skipTooDeep

theorem stack_finishes (limit room : Nat) : (stack limit room).Finishes :=
  (stack_progresses limit room).finishes (stack_forward limit room)

end Level

/-! ## Programs -/

namespace Program

/-- **Reading comes to an end.** At every depth, the limit included, what may begin a statement is
taken by it, and no loop goes round without taking a token. So whatever the tokens, repeating the
step of a program ends by itself, at the end of input, with nothing left ahead; the token for the
end of input is still where it was, and no leaf of the tree. -/
theorem parse_finishes :
    (∀ limit room, (Level.stack limit room).Finishes) ∧
      ∀ tokens, (Items.ofTokens tokens).leaves = Items.beforeEof tokens ∧
        ∃ f, Loop.Ends (step (.stack maxDepth maxDepth))
            ((Parser.ofTokens tokens).start .program) f ∧
          parse tokens = (finish f, f.parser.errors.toList) ∧
          f.current = .eof ∧ f.parser.ahead.toList = [] ∧
          f.parser.eof = tokens.find? (fun t => t.kind == .eof) ∧
          ∀ t ∈ (parse tokens).1.leaves, t.kind ≠ .eof := by
  refine ⟨Level.stack_finishes, fun tokens => ⟨Items.ofTokens_leaves tokens, ?_⟩⟩
  let start := (Parser.ofTokens tokens).start .program
  have grown : Grows start (start.loop (step (.stack maxDepth maxDepth))) :=
    loop_grows maxDepth tokens
  have current := loop_current (Level.stack_progresses maxDepth maxDepth) start
  refine ⟨_, (Level.stack_finishes maxDepth maxDepth).program.ends start, rfl, current,
    (grown.tidy (Parser.tidy_ofTokens tokens)).ahead_eq_nil current,
    grown.later.eof.trans (Items.eof_group #[] #[] tokens), fun t mem => ?_⟩
  rw [leaves_parse] at mem
  simpa using List.all_eq_true.mp List.all_takeWhile t mem

end Program

end JassSyntax
