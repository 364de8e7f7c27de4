import JassSyntax.Proofs.Discipline.Levels

/-!
# Every function of the grammar keeps the discipline

The functions of the grammar are of three sorts. Some read a tree from a parser, some go on with a
tree that has been read, and some go on with a node under construction. Whatever state one of them
begins in that fits the calls in progress, no check fails inside of it, and it leaves the depth, the
closers and the waiting comments as they have to be.
-/

namespace JassSyntax

open Level

variable {limit calls : Nat} {u l : Level} {p : Parser}

/-! ## Functions that read a tree -/

/-- The functions that read a tree, and what has to hold where each of them begins. -/
inductive TreeReader : (Parser → Prop) → (Level → Parser → Tree × Parser) → Prop
  | binding {power : Nat} (loose : power ≤ 11) : TreeReader (fun _ => True) fun u => u.binding power
  | operators (power : Nat) : TreeReader (fun _ => True) fun u => Expression.binding u power
  | operand : TreeReader (fun _ => True) Expression.operand
  | primary : TreeReader (fun _ => True) fun u p =>
      ((Expression.primary u p).tree, (Expression.primary u p).parser)
  | primaryOrStray : TreeReader (fun _ => True) fun u p =>
      ((Expression.primaryOrStray u p).tree, (Expression.primaryOrStray u p).parser)
  | string : TreeReader (fun _ => True) fun _ => Expression.string
  | table : TreeReader (·.kind ≠ .eof) Expression.table
  | field : TreeReader (fun _ => True) Expression.field
  | function : TreeReader (·.kind ≠ .eof) Expression.function
  | parenthesized : TreeReader (·.kind ≠ .eof) Expression.parenthesized
  | arguments : TreeReader (·.kind ≠ .eof) Expression.arguments
  | parameter : TreeReader (fun _ => True) fun _ => Frame.parameter
  | parameterList : TreeReader (fun _ => True) fun _ => Frame.parameterList
  | qualifiedName : TreeReader (fun _ => True) fun _ => Statement.qualifiedName
  | declarator : TreeReader (fun _ => True) Statement.declarator
  | declaration : TreeReader (fun _ => True) Statement.declaration
  | functionDefinition : TreeReader (fun p => p.kind ≠ .eof ∧ p.second.1 = .identifier)
      Statement.functionDefinition
  | simpleBlock {k : NodeKind} {closer : Kind} (closes : k.closer = some closer) :
      TreeReader (·.kind ≠ .eof) fun u => Statement.simpleBlock u k
  | struct : TreeReader (·.kind ≠ .eof) Statement.struct
  | whileLoop : TreeReader (·.kind ≠ .eof) Statement.whileLoop
  | repeatLoop : TreeReader (·.kind ≠ .eof) Statement.repeatLoop
  | conditional : TreeReader (·.kind ≠ .eof) Statement.conditional
  | elseifClause : TreeReader (fun p => p.kind ≠ .eof ∧ p.openClosers ≠ []) Statement.elseifClause
  | elseClause : TreeReader (fun p => p.kind ≠ .eof ∧ p.openClosers ≠ []) Statement.elseClause
  | returnStatement : TreeReader (·.kind ≠ .eof) Statement.returnStatement
  | expression : TreeReader (fun _ => True) Statement.expression
  | single {k : NodeKind} (construct : k.isConstruct = true) :
      TreeReader (fun _ => True) fun _ => Statement.single k
  | statement : TreeReader (·.kind ≠ .eof) Statement.statement

namespace TreeReader

open Expression Statement

variable {starts : Parser → Prop} {read : Level → Parser → Tree × Parser}

theorem reads (reader : TreeReader starts read) (traced : u.Traced) (begins : starts p) :
    Reads p (read u p).1 (read u p).2 := by
  cases reader with
  | binding => exact traced.binding _ p
  | operators power => exact binding_reads traced power p
  | operand => exact operand_reads traced p
  | primary => exact primary_reads traced p
  | primaryOrStray => exact primaryOrStray_reads traced p
  | string => exact (string_begins p).reads
  | table => exact (table_begins traced p).reads
  | field => exact field_reads traced p
  | function => exact (function_begins traced p).reads
  | parenthesized => exact (parenthesized_begins traced p).reads
  | arguments => exact (arguments_begins traced p).reads
  | parameter => exact Frame.parameter_reads p
  | parameterList => exact Frame.parameterList_reads p
  | qualifiedName => exact (qualifiedName_begins p).reads
  | declarator => exact declarator_reads traced p
  | declaration => exact declaration_reads traced p
  | functionDefinition => exact (functionDefinition_begins traced p).reads
  | simpleBlock closes => exact (simpleBlock_begins traced closes p).reads
  | struct => exact (struct_begins traced p).reads
  | whileLoop => exact (whileLoop_begins traced p).reads
  | repeatLoop => exact (repeatLoop_begins traced p).reads
  | conditional => exact (conditional_begins traced p).reads
  | elseifClause => exact (elseifClause_begins traced begins.2).reads
  | elseClause => exact (elseClause_begins traced begins.2).reads
  | returnStatement => exact (returnStatement_begins traced p).reads
  | expression => exact expression_reads traced p
  | single construct => exact (single_begins construct p).reads
  | statement => exact statement_reads traced p

/-- Whatever level takes the place of the one inside, if that reads the same, so does the function
around it. -/
theorem same (reader : TreeReader starts read) (alike : u.Alike (steady limit calls) l)
    (poised : p.Poised limit calls) (begins : starts p) : read l p = read u p := by
  have here : (steady limit calls).Parsers p p := ⟨rfl, poised⟩
  cases reader with
  | binding loose => exact (alike.enclosed loose here).1
  | operators power => exact (binding_alike alike alike.operands power here).1
  | operand => exact (operand_alike alike alike.operands here).1
  | primary => exact (primary_alike alike here).1.1
  | primaryOrStray => exact (primaryOrStray_alike alike alike.operands here).1.1
  | table => exact (table_alike alike here begins).1
  | field => exact (field_alike alike here).1
  | function => exact (function_alike alike here begins).1
  | parenthesized => exact (parenthesized_alike alike here begins).1
  | arguments => exact (arguments_alike alike here begins).1
  | declarator => exact (declarator_alike alike here).1
  | declaration => exact (declaration_alike alike here).1
  | functionDefinition => exact (functionDefinition_alike alike here begins.1 begins.2).1
  | simpleBlock closes => exact (simpleBlock_alike alike closes here begins).1
  | struct => exact (struct_alike alike here begins).1
  | whileLoop => exact (whileLoop_alike alike here begins).1
  | repeatLoop => exact (repeatLoop_alike alike here begins).1
  | conditional => exact (conditional_alike alike here begins).1
  | elseifClause => exact (elseifClause_alike alike begins.2 here begins.1).1
  | elseClause => exact (elseClause_alike alike begins.2 here begins.1).1
  | returnStatement => exact (returnStatement_alike alike here begins).1
  | expression => exact (expression_alike alike here).1
  | statement => exact (statement_alike alike here begins).1
  -- These read tokens only and call no level.
  | string | parameter | parameterList | qualifiedName | single => rfl

end TreeReader

/-! ## Functions that go on with a tree -/

/-- The functions that go on with an expression that has been read. -/
inductive TreeExtender : (Level → Tree × Parser → Tree × Parser) → Prop
  | extend (extensible : Bool) : TreeExtender fun u e =>
      ((Expression.extend u ⟨e.1, extensible, e.2⟩).1.tree,
        (Expression.extend u ⟨e.1, extensible, e.2⟩).1.parser)
  | extended (extensible : Bool) : TreeExtender fun u e =>
      Expression.extended u ⟨e.1, extensible, e.2⟩
  | join (power : Nat) : TreeExtender fun u e => (Expression.join u power e).1
  | list : TreeExtender fun u e => Expression.list u e.1 e.2

/-- Whatever a tree with waiting comments becomes the beginning of, takes them. -/
theorem Parser.Restored.wraps {e r : Tree × Parser} (h : p.Restored e) (wraps : Wraps e r) :
    p.Restored r := by
  have later := wraps.later
  refine ⟨⟨later.depth.trans h.depth, later.openClosers.trans h.openClosers⟩, ?_⟩
  rcases wraps with rfl | ⟨k, role, f, -, -, grown, rfl⟩
  · exact h.pending
  · exact .inl (grown.pending_nil rfl)

namespace TreeExtender

open Expression

variable {extend : Level → Tree × Parser → Tree × Parser} {e : Tree × Parser}

theorem restores (extender : TreeExtender extend) (traced : u.Traced) (h : p.Restored e) :
    p.Restored (extend u e) := by
  cases extender with
  | extend extensible => exact h.wraps (extend_wraps traced ⟨e.1, extensible, e.2⟩)
  | extended extensible =>
      refine Loop.run_related (R := fun a b : Operand =>
        p.Restored (a.tree, a.parser) → p.Restored (b.tree, b.parser))
        (fun first second h => second (first h)) (fun a h => h.wraps (extend_wraps traced a)) _ h
  | join power => exact h.wraps (join_wraps traced power e)
  | list => exact h.wraps (list_wraps traced e)

theorem same (extender : TreeExtender extend) (alike : u.Alike (steady limit calls) l)
    (nested : e.2.Nested limit calls) : extend l e = extend u e := by
  have here : (steady limit calls).Results .beside e e := ⟨rfl, nested⟩
  cases extender with
  | extend extensible => exact (extend_alike alike (.of_results here extensible)).1.1.1
  | extended extensible => exact (extended_alike alike (.of_results here extensible)).1
  | join power => exact (join_alike alike.traced alike.operands power here).1.1
  | list => exact (list_alike alike.traced alike.operands here).1

end TreeExtender

/-! ## Functions that go on with a node -/

/-- The functions that go on with a node under construction, and what has to hold where each of them
begins. -/
inductive NodeBuilder : (Frame → Prop) → (Level → Frame → Frame) → Prop
  | body {terminators : List Kind} (closing : ∀ k ∈ terminators, k.isClosingKeyword = true) :
      NodeBuilder (·.parser.openClosers ≠ []) fun u => u.body terminators
  | statements (terminators : List Kind) :
      NodeBuilder (fun _ => True) fun u => Statement.body u terminators
  | bodyStep (construct : NodeKind) (terminators : List Kind) :
      NodeBuilder (fun _ => True) fun u f => (Statement.bodyStep u construct terminators f).1
  | closedBody : NodeBuilder (·.kind.closer ≠ none) Frame.closedBody
  | close : NodeBuilder (·.kind.closer ≠ none) fun _ => Frame.close
  | branch : NodeBuilder (·.current ≠ .eof) Statement.branch
  | branches : NodeBuilder (·.parser.openClosers ≠ []) Statement.branches
  | clauseStep : NodeBuilder (·.parser.openClosers ≠ []) fun u f => (Statement.clauseStep u f).1
  | parameters : NodeBuilder (fun _ => True) fun _ => Frame.parameters
  | functionName : NodeBuilder (fun _ => True) fun _ => Statement.functionName
  | declaredType (modified : Bool) :
      NodeBuilder (fun _ => True) fun _ => Statement.declaredType modified
  | tableKey : NodeBuilder (fun _ => True) fun u f => (Expression.tableKey u f).1
  | tableStep : NodeBuilder (·.kind = .tableConstructor) fun u f => (Expression.tableStep u f).1
  | methodCall : NodeBuilder (·.current ≠ .eof) Expression.methodCall
  | listStep : NodeBuilder (·.kind = .expressionList) fun u f => (Expression.listStep u f).1

/-- A closer is taken as behind a block in which nothing has been read. -/
theorem Grows.close {f : Frame} {closer : Kind} (closes : f.kind.closer = some closer) :
    Grows f f.close := by
  have closing : ∀ k ∈ [closer], k.isClosingKeyword = true := by
    simpa using NodeKind.isClosingKeyword_of_closer closes
  have block := Grows.block (.refl f) closes (List.cons_ne_nil closer []) closing (.refl _)
  have same : (f.parser.enterBlock [closer]).leaveBlock f.parser.openClosers.length = f.parser := by
    unfold Parser.enterBlock Parser.leaveBlock
    dsimp only
    rw [List.take_left]
  rwa [same] at block

namespace NodeBuilder

open Expression Statement

variable {starts : Frame → Prop} {build : Level → Frame → Frame} {f : Frame}

theorem grows (builder : NodeBuilder starts build) (traced : u.Traced) (begins : starts f) :
    Grows f (build u f) := by
  cases builder with
  | body closing => exact traced.body _ f closing begins
  | statements terminators => exact body_grows traced terminators f
  | bodyStep construct terminators => exact bodyStep_grows traced construct terminators f
  | closedBody =>
      obtain ⟨closer, closes⟩ := Option.ne_none_iff_exists'.mp begins
      exact Frame.closedBody_grows traced closes
  | close =>
      obtain ⟨closer, closes⟩ := Option.ne_none_iff_exists'.mp begins
      exact Grows.close closes
  | branch => exact (Grows.refl f).bump.trans (branch_grows traced f)
  | branches => exact branches_grows traced begins
  | clauseStep => exact clauseStep_grows traced begins
  | parameters => exact Frame.parameters_grows f
  | functionName => exact functionName_grows f
  | declaredType modified => exact declaredType_grows modified f
  | tableKey => exact tableKey_grows traced f
  | tableStep => exact tableStep_grows traced f
  | methodCall => exact methodCall_grows traced f
  | listStep => exact listStep_grows traced f

theorem same (builder : NodeBuilder starts build) (alike : u.Alike (steady limit calls) l)
    (poised : f.parser.Poised limit calls) (begins : starts f) : build l f = build u f := by
  have here : (steady limit calls).Frames f f := ⟨rfl, poised⟩
  have statements : ∀ p : Parser, p.Poised limit calls → p.kind ≠ .eof →
      statement l p = statement u p := fun _ => TreeReader.statement.same alike
  cases builder with
  | body closing => exact (alike.body closing begins here).1
  | statements terminators =>
      have body := bodyBy_congr statements alike.traced Parser.Poised.grows terminators poised
      rwa [bodyBy_statement] at body
  | bodyStep construct terminators =>
      have round := bodyStepBy_congr statements construct terminators poised
      rw [bodyStepBy_statement] at round
      exact congrArg Prod.fst round
  | closedBody =>
      obtain ⟨closer, closes⟩ := Option.ne_none_iff_exists'.mp begins
      exact (Frame.closedBody_alike_of_closer alike closes here).1
  | branch => exact (branch_alike alike here begins).1
  | branches => exact (branches_alike alike begins here).1
  | clauseStep => exact (clauseStep_alike alike begins here).1.1
  | tableKey => exact (tableKey_alike alike here).1
  | tableStep => exact (tableStep_alike alike here (by rw [begins]; rfl) (.inl rfl)).1.1
  | methodCall => exact (methodCall_alike alike here begins).1
  | listStep => exact (listStep_alike alike.traced alike.operands here begins).1.1
  -- These take tokens only and call no level.
  | close | parameters | functionName | declaredType => rfl

end NodeBuilder

/-! ## All of them -/

/-- The discipline that the grammar keeps, whatever `astray` does once a check fails. Inside of
`calls` calls of a parser with as much `room` left, what the functions of the grammar count on is
`watchedStack limit astray room calls`, which stands for `stack limit room`. -/
structure Disciplined (limit : Nat) (astray : Level) : Prop where
  /-- In no program a check fails. -/
  program : ∀ tokens, Program.watched limit astray tokens = Program.parseWithin limit tokens
  /-- A function that reads a tree restores the state. No check fails in it. -/
  reader : ∀ {starts read}, TreeReader starts read → ∀ {room calls} {p : Parser},
    calls + room = limit → p.Poised limit calls → starts p →
      read (watchedStack limit astray room calls) p = read (stack limit room) p ∧
        p.Restored (read (stack limit room) p)
  /-- Behind a statement no comments wait. -/
  statement : ∀ {room calls} {p : Parser}, calls + room = limit → p.Poised limit calls →
    p.Cleared (Statement.statement (stack limit room) p).2
  /-- A function that goes on with a tree restores the state from before that tree. -/
  extender : ∀ {extend}, TreeExtender extend → ∀ {room calls} {p : Parser} {e : Tree × Parser},
    calls + room = limit → p.Poised limit calls → p.Restored e →
      extend (watchedStack limit astray room calls) e = extend (stack limit room) e ∧
        p.Restored (extend (stack limit room) e)
  /-- A function that goes on with a node restores the state, and no comments wait behind it. -/
  builder : ∀ {starts build}, NodeBuilder starts build → ∀ {room calls} {f : Frame},
    calls + room = limit → f.parser.Poised limit calls → starts f →
      build (watchedStack limit astray room calls) f = build (stack limit room) f ∧
        f.parser.Cleared (build (stack limit room) f).parser
  /-- So does every single move of which they are made, and any number of moves. -/
  moves : ∀ {f g}, Grows f g → f.parser.pending = [] → f.parser.Cleared g.parser
  /-- Where a level of nesting is left, there is one to leave. -/
  ascends : ∀ {room calls}, calls + 1 + room = limit →
    (∀ power (p : Parser), p.Poised limit (calls + 1) →
      0 < (Expression.binding (stack limit room) power p).2.depth ∧
        (Expression.binding (stack limit room) power p).2.ascend.Nested limit calls) ∧
    ∀ terminators (f : Frame), f.parser.Poised limit (calls + 1) →
      0 < (Statement.body (stack limit room) terminators f).parser.depth ∧
        (Statement.body (stack limit room) terminators f).parser.ascend.Nested limit calls

/-- **The parser keeps its books.** At every moment of every parse the depth is the number of
expressions and bodies in progress, the limit allows for it, and going up a level undoes one that
was gone down. Every function of the grammar returns with the depth and the open closers that it
began with. No comments wait before or after a statement, and elsewhere at most those in front of
the one token that has been read and has no parent yet. -/
theorem grammar_disciplined (limit : Nat) (astray : Level) : Disciplined limit astray where
  program := Program.watched_eq limit astray
  reader reader room calls p all poised begins :=
    ⟨reader.same (watchedStack_alike limit astray room calls all) poised begins,
      .of_reads (reader.reads (stack_traced limit room) begins) poised.pending⟩
  statement {room calls p} _ poised :=
    .of_reads (Statement.statement_reads (stack_traced limit room) p) poised.pending
      (isNode_statement _ p)
  extender extender room calls p e all poised restored := by
    have nested : e.2.Nested limit calls :=
      ⟨restored.depth.trans poised.depth, restored.depth.symm ▸ poised.within⟩
    exact ⟨extender.same (watchedStack_alike limit astray room calls all) nested,
      extender.restores (stack_traced limit room) restored⟩
  builder builder room calls f all poised begins :=
    ⟨builder.same (watchedStack_alike limit astray room calls all) poised begins,
      .of_grows (builder.grows (stack_traced limit room) begins) poised.pending⟩
  moves := .of_grows
  ascends {room calls} _ := by
    constructor
    · intro power p poised
      have after := poised.toNested.later
        (Expression.binding_reads (stack_traced limit room) power p).later
      exact ⟨after.depth.symm ▸ Nat.succ_pos calls, after.ascend⟩
    · intro terminators f poised
      have after := poised.toNested.later
        (Statement.body_grows (stack_traced limit room) terminators f).later
      exact ⟨after.depth.symm ▸ Nat.succ_pos calls, after.ascend⟩

end JassSyntax
