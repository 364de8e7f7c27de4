import JassSyntax.Proofs.Reading.Later

/-!
# Every construct leaves a trace

Each function of the grammar is a chain of the moves of `Reads` and `Grows`, provided that the level
inside it is. The stack of levels is built from the bottom, so all of its levels are.
-/

namespace JassSyntax

/-- What a level reads leaves a trace. -/
structure Level.Traced (inner : Level) : Prop where
  binding : ∀ power p, Reads p (inner.binding power p).1 (inner.binding power p).2
  /-- A body lies in a block, and keywords end it. -/
  body : ∀ terminators f, (∀ k ∈ terminators, k.isClosingKeyword = true) →
    f.parser.openClosers ≠ [] → Grows f (inner.body terminators f)

/-- A node that takes the current token first. -/
def Begins (p : Parser) (r : Tree × Parser) : Prop :=
  ∃ kind role f, kind.isConstruct = true ∧ Grows ((p.start kind).bump role) f ∧ r = f.finish

theorem Begins.reads {p : Parser} {r : Tree × Parser} (begins : Begins p r) :
    Reads p r.1 r.2 := by
  obtain ⟨kind, role, f, construct, grown, rfl⟩ := begins
  exact .node kind construct ((Grows.refl _).bump.trans grown)

/-- A node of the kind can begin with a tree in the role. -/
def NodeKind.Leads (k : NodeKind) (role : Option Role) : Prop :=
  role = some .base ∨ role = some .left ∨ k = .updateExpression ∧ role = some .operand ∨
    k = .expressionList ∧ role = none

/-- The same tree, or a node that begins with it. -/
def Wraps (e r : Tree × Parser) : Prop :=
  r = e ∨ ∃ kind role f, kind.isConstruct = true ∧ kind.Leads role ∧
    Grows ((e.2.start kind).attach role e.1) f ∧ r = f.finish

theorem Wraps.reads {p : Parser} {e r : Tree × Parser} (wraps : Wraps e r)
    (read : Reads p e.1 e.2) : Reads p r.1 r.2 := by
  rcases wraps with rfl | ⟨kind, role, f, construct, _, grown, rfl⟩
  · exact read
  · exact .around kind construct read grown

theorem Wraps.later {e r : Tree × Parser} (wraps : Wraps e r) : e.2.Later r.2 := by
  rcases wraps with rfl | ⟨kind, role, f, _, _, grown, rfl⟩
  · exact .refl _
  · exact (Parser.Later.attach (f := e.2.start kind) (.refl _)).trans grown.later

variable {inner : Level}

/-! ## Parts of blocks -/

namespace Frame

/-- Inside a block bodies are enclosed. -/
theorem enclosed_enterBlock {closers : List Kind} (nonempty : closers ≠ []) (p : Parser) :
    (p.enterBlock closers).openClosers ≠ [] := by
  simp [Parser.enterBlock, nonempty]

theorem closedBody_grows (traced : inner.Traced) {f : Frame} {closer : Kind}
    (closes : f.kind.closer = some closer) : Grows f (f.closedBody inner) := by
  have keyword := NodeKind.isClosingKeyword_of_closer closes
  have closing : ∀ k ∈ [closer], k.isClosingKeyword = true := by simpa using keyword
  unfold closedBody
  rw [closes]
  exact (Grows.refl f).enclosed closes (List.cons_ne_nil _ _) closing
    (traced.body _ _ closing (enclosed_enterBlock (List.cons_ne_nil _ _) _))

/-- A construct that ends with a body and its closer. -/
theorem closedBody_begins (traced : inner.Traced) {p : Parser} {f : Frame} {kind : NodeKind}
    {closer : Kind} {role : Option Role} (closes : kind.closer = some closer)
    (headed : Grows ((p.start kind).bump role) f) : Begins p (f.closedBody inner).finish := by
  have same : f.kind = kind := headed.kind.trans (kind_bump _ _)
  exact ⟨kind, role, _, NodeKind.isConstruct_of_closer closes,
    headed.trans (closedBody_grows traced (same ▸ closes)), rfl⟩

theorem parameter_reads (p : Parser) : Reads p (parameter p).1 (parameter p).2 := by
  have looked := (Grows.refl (p.start .parameter)).second
  refine .node .parameter rfl (.bump ?_)
  show Grows _ (if (p.start .parameter).second.1 = .identifier then
    (p.start .parameter).second.2.bump (some .type) else (p.start .parameter).second.2)
  split
  · exact looked.bump
  · exact looked

theorem parameterItems_grows (f : Frame) : Grows f f.parameterItems := by
  refine (Grows.refl f).loop ?_
  intro g
  split
  · exact ((Grows.refl g).child (parameter_reads _)).eat
  · exact .refl g

theorem parameterList_reads (p : Parser) :
    Reads p (parameterList p).1 (parameterList p).2 := by
  have opened : Grows (p.start .parameters)
      ((p.start .parameters).demand .lParen none (.unexpected .lParen)).1 :=
    (Grows.refl _).demand
  unfold parameterList
  dsimp only
  split
  · exact .node .parameters rfl (opened.trans (parameterItems_grows _)).expect
  · exact .node .parameters rfl opened

theorem parameters_grows (f : Frame) : Grows f f.parameters :=
  (Grows.refl f).child (parameterList_reads _)

end Frame

/-! ## Expressions -/

namespace Expression

theorem string_begins (p : Parser) : Begins p (string p) := by
  refine ⟨.string, some .opening, _, rfl, .expect ?_, rfl⟩
  split
  · exact (Grows.refl _).bump
  · exact .refl _

theorem tableKey_grows (traced : inner.Traced) (f : Frame) : Grows f (tableKey inner f).1 := by
  unfold tableKey
  split
  · exact ((Grows.refl f).bump.child (traced.binding _ _)).expect.expect
  · dsimp only
    split
    · exact (Grows.refl f).second.bump.bump
    · exact (Grows.refl f).second
  · exact .refl f

/-- Where no field begins, nothing has been taken. -/
theorem tableKey_of_not_begins {f : Frame} (h : (tableKey inner f).2 = false) :
    (tableKey inner f).1 = f := by
  unfold tableKey at h ⊢
  split <;> simp_all

theorem tableStep_grows (traced : inner.Traced) (f : Frame) : Grows f (tableStep inner f).1 := by
  unfold tableStep
  split
  · next separator =>
    exact (Grows.refl f).skip (Kind.ne_eof_of_separator separator)
  · dsimp only
    split
    · have value : Grows (f.parser.start .field) ((tableKey inner (f.parser.start .field)).1.child
          (some .value) (inner.binding (Power.assignment + 1))) :=
        (tableKey_grows traced _).child (traced.binding _ _)
      split
      · exact ((Grows.refl f).attach (.node .field rfl value)).bump
      · exact (Grows.refl f).attach (.node .field rfl value)
    · next begins =>
      rw [tableKey_of_not_begins (by simpa using begins)]
      exact .refl f

theorem table_begins (traced : inner.Traced) (p : Parser) : Begins p (table inner p) :=
  ⟨.tableConstructor, none, _, rfl, ((Grows.refl _).loop (tableStep_grows traced)).expect, rfl⟩

theorem function_begins (traced : inner.Traced) (p : Parser) : Begins p (function inner p) :=
  Frame.closedBody_begins traced rfl (Frame.parameters_grows _)

theorem parenthesized_begins (traced : inner.Traced) (p : Parser) :
    Begins p (parenthesized inner p) :=
  ⟨.parenthesizedExpression, none, _, rfl, ((Grows.refl _).child (traced.binding _ _)).expect, rfl⟩

/-! ### Operands -/

theorem primary_reads (traced : inner.Traced) (p : Parser) :
    Reads p (primary inner p).tree (primary inner p).parser := by
  unfold primary
  split
  · next h => exact .leaf (Parser.head_of_kind h (by decide)).choose_spec.1
  · next h => exact .leaf (Parser.head_of_kind h (by decide)).choose_spec.1
  · next h => exact .leaf (Parser.head_of_kind h (by decide)).choose_spec.1
  · exact (string_begins p).reads
  · exact (table_begins traced p).reads
  · exact (parenthesized_begins traced p).reads
  · exact (function_begins traced p).reads
  · exact .absent

theorem arguments_begins (traced : inner.Traced) (p : Parser) : Begins p (arguments inner p) := by
  unfold arguments
  split
  · exact string_begins p
  · exact table_begins traced p
  · refine ⟨.arguments, none, _, rfl, .expect ?_, rfl⟩
    split
    · exact .refl _
    · exact (Grows.refl _).commaSeparated fun g => (Grows.refl g).child (traced.binding _ _)

theorem methodCall_takes (traced : inner.Traced) (f : Frame) :
    Grows f.bump (methodCall inner f) := by
  unfold methodCall
  dsimp only
  split
  · exact (Grows.refl f.bump).expectName.child (arguments_begins traced _).reads
  · exact (Grows.refl f.bump).expectName.repair

theorem methodCall_grows (traced : inner.Traced) (f : Frame) : Grows f (methodCall inner f) :=
  (Grows.refl f).bump.trans (methodCall_takes traced f)

theorem extend_wraps (traced : inner.Traced) (e : Operand) :
    Wraps (e.tree, e.parser) ((extend inner e).1.tree, (extend inner e).1.parser) := by
  unfold extend
  split
  · exact .inr ⟨_, _, _, rfl, .inl rfl, (Grows.refl _).bump.expectName, rfl⟩
  · exact .inr ⟨_, _, _, rfl, .inl rfl,
      ((Grows.refl _).bump.child (traced.binding _ _)).expect, rfl⟩
  · exact .inr ⟨_, _, _, rfl, .inl rfl, methodCall_grows traced _, rfl⟩
  · exact .inr ⟨_, _, _, rfl, .inr (.inr (.inl ⟨rfl, rfl⟩)), (Grows.refl _).bump, rfl⟩
  · exact .inr ⟨_, _, _, rfl, .inr (.inr (.inl ⟨rfl, rfl⟩)), (Grows.refl _).bump, rfl⟩
  · split
    · exact .inr ⟨_, _, _, rfl, .inl rfl,
        (Grows.refl _).child (arguments_begins traced _).reads, rfl⟩
    · exact .inl rfl
  · exact .inl rfl

theorem extended_later (traced : inner.Traced) (e : Operand) :
    e.parser.Later (extended inner e).2 :=
  Loop.run_related (R := fun a b : Operand => a.parser.Later b.parser)
    (fun first second => first.trans second) (fun e => (extend_wraps traced e).later) e

theorem extended_reads (traced : inner.Traced) {p : Parser} (e : Operand)
    (read : Reads p e.tree e.parser) : Reads p (extended inner e).1 (extended inner e).2 :=
  Loop.run_related (R := fun a b : Operand => Reads p a.tree a.parser → Reads p b.tree b.parser)
    (fun first second h => second (first h)) (fun e h => (extend_wraps traced e).reads h) e read

theorem unary_begins (traced : inner.Traced) (p : Parser) :
    Begins p (((p.start .unaryExpression).bump (some .operator)).child (some .operand)
      (inner.binding Power.unary)).finish :=
  ⟨.unaryExpression, some .operator, _, rfl, (Grows.refl _).child (traced.binding _ _), rfl⟩

theorem operandFrom_reads (traced : inner.Traced) {first : Parser → Operand}
    (reads : ∀ p, Reads p (first p).tree (first p).parser) (p : Parser) :
    Reads p (operandFrom inner first p).1 (operandFrom inner first p).2 := by
  unfold operandFrom
  split
  · exact (unary_begins traced p).reads
  · exact extended_reads traced _ (reads p)

theorem primaryOrStray_reads (traced : inner.Traced) (p : Parser) :
    Reads p (primaryOrStray inner p).tree (primaryOrStray inner p).parser := by
  unfold primaryOrStray
  dsimp only
  split
  · next stray =>
    refine .stray (c := .noExpression) (Kind.ne_eof_of_isStray stray.1) ?_
    split
    · exact (Grows.refl _).child (operandFrom_reads traced (primary_reads traced) _)
    · exact .refl _
  · exact primary_reads traced p

theorem operand_reads (traced : inner.Traced) (p : Parser) :
    Reads p (operand inner p).1 (operand inner p).2 :=
  operandFrom_reads traced (primaryOrStray_reads traced) p

/-! ### Operators -/

theorem listStep_grows (traced : inner.Traced) (f : Frame) : Grows f (listStep inner f).1 := by
  unfold listStep
  split
  · exact (Grows.refl f).bump.child (traced.binding _ _)
  · exact .refl f

theorem list_wraps (traced : inner.Traced) (e : Tree × Parser) : Wraps e (list inner e.1 e.2) :=
  .inr ⟨.expressionList, none, _, rfl, .inr (.inr (.inr ⟨rfl, rfl⟩)),
    (Grows.refl _).loop (listStep_grows traced), list_eq inner e.1 e.2⟩

theorem join_wraps (traced : inner.Traced) (power : Nat) (e : Tree × Parser) :
    Wraps e (join inner power e).1 := by
  rcases join_cases inner power e with ⟨_, h⟩ | ⟨own, side, _, _, ⟨_, h⟩ | ⟨_, h⟩⟩ <;> rw [h]
  · exact .inl rfl
  · exact list_wraps traced e
  · have construct : (if e.2.kind = .equals then NodeKind.assignmentExpression
        else .binaryExpression).isConstruct = true := by split <;> rfl
    exact .inr ⟨_, _, _, construct, .inr (.inl rfl),
      (Grows.refl _).bump.child (traced.binding _ _), rfl⟩

theorem binding_reads (traced : inner.Traced) (power : Nat) (p : Parser) :
    Reads p (binding inner power p).1 (binding inner power p).2 :=
  Loop.run_related (R := fun a b : Tree × Parser => Reads p a.1 a.2 → Reads p b.1 b.2)
    (fun first second h => second (first h)) (fun e h => (join_wraps traced power e).reads h) _
    (operand_reads traced p)

end Expression

/-! ## Statements -/

namespace Statement

theorem simpleBlock_begins (traced : inner.Traced) {kind : NodeKind} {closer : Kind}
    (closes : kind.closer = some closer) (p : Parser) : Begins p (simpleBlock inner kind p) :=
  Frame.closedBody_begins traced closes (.refl _)

theorem struct_begins (traced : inner.Traced) (p : Parser) : Begins p (struct inner p) :=
  Frame.closedBody_begins traced rfl (Grows.refl _).expectName

theorem branch_grows (traced : inner.Traced) (f : Frame) : Grows f.bump (branch inner f) :=
  ((Grows.refl _).child (traced.binding _ _)).expect

theorem whileLoop_begins (traced : inner.Traced) (p : Parser) : Begins p (whileLoop inner p) :=
  Frame.closedBody_begins traced rfl ((Grows.refl _).child (traced.binding _ _)).expect

theorem repeatLoop_begins (traced : inner.Traced) (p : Parser) : Begins p (repeatLoop inner p) := by
  have nonempty : [Kind.kwUntil] ≠ [] := List.cons_ne_nil _ _
  have closes : (p.start .repeatStatement).bump.kind.closer = some .kwUntil := by
    rw [Frame.kind_bump]
    rfl
  have closed : Grows (p.start .repeatStatement).bump
      ((p.start .repeatStatement).bump.within [.kwUntil] (inner.body [.kwUntil])).close :=
    (Grows.refl _).enclosed closes nonempty (by decide)
      (traced.body _ _ (by decide) (Frame.enclosed_enterBlock nonempty _))
  refine ⟨.repeatStatement, none, _, rfl, ?_, rfl⟩
  split
  · exact closed.child (traced.binding _ _)
  · exact closed

theorem elseifClause_begins (traced : inner.Traced) {p : Parser} (enclosed : p.openClosers ≠ []) :
    Begins p (elseifClause inner p) := by
  have headed := branch_grows traced (p.start .elseifClause)
  have same : (branch inner (p.start .elseifClause)).parser.openClosers = p.openClosers :=
    ((Parser.Later.bump (f := p.start .elseifClause) (.refl _)).trans headed.later).openClosers
  exact ⟨.elseifClause, none, _, rfl,
    headed.trans (traced.body _ _ branchEnds_closing (same ▸ enclosed)), rfl⟩

theorem elseClause_begins (traced : inner.Traced) {p : Parser} (enclosed : p.openClosers ≠ []) :
    Begins p (elseClause inner p) := by
  have same : (p.start .elseClause).bump.parser.openClosers = p.openClosers :=
    (Parser.Later.bump (f := p.start .elseClause) (.refl _)).openClosers
  exact ⟨.elseClause, none, _, rfl, traced.body _ _ (by decide) (same ▸ enclosed), rfl⟩

theorem clauseStep_grows (traced : inner.Traced) {f : Frame}
    (enclosed : f.parser.openClosers ≠ []) : Grows f (clauseStep inner f).1 := by
  unfold clauseStep
  split
  · exact (Grows.refl f).child (elseifClause_begins traced enclosed).reads
  · exact .refl f

theorem branches_grows (traced : inner.Traced) {f : Frame}
    (enclosed : f.parser.openClosers ≠ []) : Grows f (branches inner f) := by
  have first := traced.body branchEnds f branchEnds_closing enclosed
  have clauses : Grows f ((inner.body branchEnds f).loop (clauseStep inner)) :=
    first.loop_from fun g grown =>
      clauseStep_grows traced ((first.trans grown).later.openClosers ▸ enclosed)
  rw [branches_eq]
  dsimp only
  split
  · exact clauses.child
      (elseClause_begins traced (clauses.later.openClosers ▸ enclosed)).reads
  · exact clauses

theorem conditional_begins (traced : inner.Traced) (p : Parser) :
    Begins p (conditional inner p) := by
  have headed := branch_grows traced (p.start .ifStatement)
  have closes : (branch inner (p.start .ifStatement)).kind.closer = some .kwEnd := by
    rw [headed.kind, Frame.kind_bump]
    rfl
  have nonempty : branchEnds ≠ [] := List.cons_ne_nil _ _
  exact ⟨.ifStatement, none, _, rfl, headed.enclosed closes nonempty branchEnds_closing
    (branches_grows traced (Frame.enclosed_enterBlock nonempty _)), rfl⟩

theorem memberStep_grows (f : Frame) : Grows f (memberStep f).1 := by
  unfold memberStep
  split
  · exact (Grows.refl f).bump.expectName
  · exact .refl f

theorem qualifiers_grows (f : Frame) : Grows f (qualifiers f) := by
  have members : Grows f (f.loop memberStep) := (Grows.refl f).loop memberStep_grows
  rw [qualifiers_eq]
  dsimp only
  split
  · exact members.bump.expectName
  · exact members

theorem qualifiedName_begins (p : Parser) : Begins p (qualifiedName p) :=
  ⟨.functionName, some .base, _, rfl, qualifiers_grows _, rfl⟩

theorem functionName_grows (f : Frame) : Grows f (functionName f) := by
  rcases functionName_cases f with ⟨_, h⟩ | ⟨_, h⟩ <;> rw [h]
  · exact (Grows.refl f).child (qualifiedName_begins _).reads
  · exact (Grows.refl f).second.expectName

theorem functionDefinition_begins (traced : inner.Traced) (p : Parser) :
    Begins p (functionDefinition inner p) :=
  Frame.closedBody_begins traced rfl ((functionName_grows _).trans (Frame.parameters_grows _))

theorem declarator_reads (traced : inner.Traced) (p : Parser) :
    Reads p (declarator inner p).1 (declarator inner p).2 := by
  have assigned : Grows (p.start .declarator)
      (((p.start .declarator).expectName .name).eat .equals).1 := (Grows.refl _).expectName.eat
  refine .node .declarator rfl ?_
  dsimp only
  split
  · exact assigned.child (traced.binding _ _)
  · exact assigned

theorem declaredType_grows (modified : Bool) (f : Frame) : Grows f (declaredType modified f) := by
  have looked : Grows f (if f.current = .identifier then f.second else (.eof, f)).2 := by
    split
    · exact (Grows.refl f).second
    · exact .refl f
  unfold declaredType
  generalize (if f.current = .identifier then f.second else (.eof, f)) = ahead at looked ⊢
  obtain ⟨next, g⟩ := ahead
  dsimp only at looked ⊢
  split
  · exact looked.bump.bumpWhile
  · split
    · exact looked
    · exact looked.expectName

theorem declaration_reads (traced : inner.Traced) (p : Parser) :
    Reads p (declaration inner p).1 (declaration inner p).2 := by
  have typed : Grows (p.start .variableDeclaration) (declaredType p.kind.isModifier
      ((p.start .variableDeclaration).bumpWhile (some .modifier) Kind.isModifier)) :=
    (Grows.refl _).bumpWhile.trans (declaredType_grows _ _)
  exact .node .variableDeclaration rfl (typed.commaSeparated fun g =>
    (Grows.refl g).child (declarator_reads traced _))

theorem single_begins {kind : NodeKind} (construct : kind.isConstruct = true) (p : Parser) :
    Begins p (single kind p) :=
  ⟨kind, none, _, construct, .refl _, rfl⟩

theorem returnStatement_begins (traced : inner.Traced) (p : Parser) :
    Begins p (returnStatement inner p) := by
  refine ⟨.returnStatement, none, _, rfl, ?_, rfl⟩
  split
  · exact (Grows.refl _).commaSeparated fun g => (Grows.refl g).child (traced.binding _ _)
  · exact .refl _

theorem expression_reads (traced : inner.Traced) (p : Parser) :
    Reads p (expression inner p).1 (expression inner p).2 :=
  .node .expressionStatement rfl ((Grows.refl _).child (traced.binding _ _))

/-- A look at the second token before a tree is read leaves no mark. -/
theorem reads_second {p : Parser} {t : Tree} {q : Parser} (read : Reads p.second.2 t q) :
    Reads p t q := by
  rcases p.second_looked with h | h <;> rw [h] at read
  · exact read
  · exact .noticing read

theorem statement_reads (traced : inner.Traced) (p : Parser) :
    Reads p (statement inner p).1 (statement inner p).2 := by
  unfold statement
  split
  · exact declaration_reads traced p
  · exact declaration_reads traced p
  · exact declaration_reads traced p
  · dsimp only
    split
    · exact reads_second (declaration_reads traced _)
    · exact reads_second (expression_reads traced _)
  · exact (simpleBlock_begins traced rfl p).reads
  · exact (struct_begins traced p).reads
  · exact (simpleBlock_begins traced rfl p).reads
  · exact (simpleBlock_begins traced rfl p).reads
  · exact (whileLoop_begins traced p).reads
  · exact (repeatLoop_begins traced p).reads
  · exact (conditional_begins traced p).reads
  · dsimp only
    split
    · exact reads_second (functionDefinition_begins traced _).reads
    · exact reads_second (expression_reads traced _)
  · exact (returnStatement_begins traced p).reads
  · exact (single_begins rfl p).reads
  · exact (single_begins rfl p).reads
  · exact expression_reads traced p

theorem bodyStep_grows (traced : inner.Traced) (construct : NodeKind) (terminators : List Kind)
    (f : Frame) : Grows f (bodyStep inner construct terminators f).1 := by
  unfold bodyStep
  dsimp only
  split
  · exact .refl f
  · next inside =>
    split
    · exact (Grows.refl f).child (statement_reads traced _)
    · exact (Grows.refl f).skip fun eof => inside (.inl eof)

theorem body_grows (traced : inner.Traced) (terminators : List Kind) (f : Frame) :
    Grows f (body inner terminators f) := by
  have block : Grows (f.parser.start .block)
      ((f.parser.start .block).loop (bodyStep inner f.kind terminators)) :=
    (Grows.refl _).loop (bodyStep_grows traced _ _)
  unfold body
  dsimp only
  split
  · next empty => exact (Grows.refl f).drop block (Array.isEmpty_iff.mp empty)
  · exact (Grows.refl f).child (.node .block rfl block)

end Statement

/-! ## Levels -/

namespace Level

theorem cutOff_traced (limit : Nat) : (cutOff limit).Traced where
  binding power p := by
    rcases cutOff_binding_cases limit power p with ⟨_, h⟩ | ⟨n, region, h⟩ <;> rw [h]
    · exact .absentTooDeep
    · exact .tooDeep (ahead_of_regionLength region)
  body terminators f closing enclosed := by
    rcases cutOff_body_cases limit terminators f with ⟨ends, h⟩ | ⟨here, n, h⟩ <;> rw [h]
    · exact (Grows.refl f).tooDeep enclosed (ends.imp_right (Or.imp_left (closing _)))
    · exact (Grows.refl f).child (.around .block rfl (.tooDeep here) (.refl _))

theorem above_traced (limit : Nat) (traced : inner.Traced) : (inner.above limit).Traced where
  binding power p := by
    rcases above_binding_cases limit inner power p with ⟨_, h⟩ | ⟨_, h⟩ <;> rw [h]
    · exact (cutOff_traced limit).binding power p
    · exact .nested (Expression.binding_reads traced power _)
  body terminators f closing enclosed := by
    rcases above_body_cases limit inner terminators f with ⟨_, h⟩ | ⟨_, h⟩ <;> rw [h]
    · exact (cutOff_traced limit).body terminators f closing enclosed
    · exact (Grows.refl f).nested (Statement.body_grows traced terminators _)

theorem stack_traced (limit room : Nat) : (stack limit room).Traced := by
  induction room with
  | zero => exact cutOff_traced limit
  | succ room ih => exact above_traced limit ih

end Level

/-! ## Programs -/

namespace Program

theorem step_grows (traced : inner.Traced) (f : Frame) : Grows f (step inner f).1 := by
  unfold step
  dsimp only
  split
  · exact .refl f
  · next inside =>
    split
    · exact (Grows.refl f).child (Statement.statement_reads traced _)
    · exact (Grows.refl f).skip inside

/-- The program that is read, before its node is finished. -/
theorem loop_grows (limit : Nat) (tokens : List Token) :
    Grows ((Parser.ofTokens tokens).start .program)
      (((Parser.ofTokens tokens).start .program).loop (step (.stack limit limit))) :=
  (Grows.refl _).loop (step_grows (Level.stack_traced limit limit))

end Program

end JassSyntax
