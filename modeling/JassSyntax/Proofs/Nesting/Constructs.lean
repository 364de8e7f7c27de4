import JassSyntax.Proofs.Nesting.Frames

/-!
# How deep each construct nests

What lies inside a construct is read by the level below, and a construct puts a few nodes around it:
at most four, from the body through a statement and the list of its branches to a branch, or from a
stray token through a call and a table to a field. So each level adds four to what the level below
it nests.
-/

namespace JassSyntax

/-- What the level reads nests no deeper than `n`, and its bodies fit into nodes that nest
deeper. -/
structure Level.Low (n : Nat) (inner : Level) : Prop where
  room : 4 ≤ n
  binding : ∀ power {p : Parser}, p.Tidy → Shallow n (inner.binding power p)
  body : ∀ terminators {m : Nat} {f : Frame}, n < m → f.Low m → (inner.body terminators f).Low m

variable {inner : Level} {m n : Nat} {f : Frame} {p : Parser}

/-- The room that the grammar itself needs. -/
theorem Level.Low.start {kind : NodeKind} (h : inner.Low n) (tidy : p.Tidy)
    (other : kind ≠ .blockComment) : (p.start kind).Low (n + 1) :=
  Frame.low_start (Nat.le_succ_of_le (Nat.le_of_succ_le h.room)) tidy other

/-! ## Parts of blocks -/

namespace Frame

/-- An operand of the level below as a child. -/
theorem Low.operand (low : f.Low m) (h : inner.Low n) (deep : n < m) {role : Option Role}
    {power : Nat} : (f.child role (inner.binding power)).Low m :=
  low.child (h.binding power low.tidy) deep

theorem closedBody_low (h : inner.Low n) (deep : n < m) (low : f.Low m) :
    (f.closedBody inner).Low m :=
  (low.within fun _ inside => h.body _ deep inside).close

theorem parameter_shallow (tidy : p.Tidy) : Shallow 3 (parameter p) := by
  have begun : (p.start .parameter).Low 3 := low_start (Nat.le_refl 3) tidy (by decide)
  rcases parameter_cases p with ⟨_, e⟩ | ⟨_, e⟩ <;> rw [e]
  · exact begun.bump.bump.finish
  · exact begun.second.bump.finish

theorem parameterList_shallow (tidy : p.Tidy) : Shallow 4 (parameterList p) := by
  have opened : ((p.start .parameters).demand .lParen none (.unexpected .lParen)).1.Low 4 :=
    (low_start (by decide) tidy (by decide)).demand
  unfold parameterList
  dsimp only
  split
  · apply Shallow.mono _ (Nat.le_refl 4)
    apply Low.finish
    apply Low.expect
    apply opened.loop
    intro g low
    split
    · exact (low.child (parameter_shallow low.tidy) (by decide)).eat
    · exact low
  · exact opened.finish

theorem parameters_low (low : f.Low m) (deep : 4 < m) : f.parameters.Low m := by
  rw [parameters_eq]
  exact low.child (parameterList_shallow low.tidy) deep

end Frame

/-! ## Expressions -/

namespace Expression

theorem string_shallow (tidy : p.Tidy) : Shallow 3 (string p) := by
  have begun : ((p.start .string).bump (some .opening)).Low 3 :=
    (Frame.low_start (Nat.le_refl 3) tidy (by decide)).bump
  unfold string
  dsimp only
  split
  · exact begun.bump.expect.finish
  · exact begun.expect.finish

theorem tableKey_low (h : inner.Low n) (deep : n < m) (low : f.Low m) :
    (tableKey inner f).1.Low m := by
  unfold tableKey
  split
  · exact (low.bump.operand h deep).expect.expect
  · dsimp only
    split
    · exact low.second.bump.bump
    · exact low.second
  · exact low

theorem tableStep_low (h : inner.Low n) (deep : n + 1 < m) (low : f.Low m) :
    (tableStep inner f).1.Low m := by
  have key : (tableKey inner (f.parser.start .field)).1.Low (n + 1) :=
    tableKey_low h (Nat.lt_succ_self n) (h.start low.tidy (by decide))
  unfold tableStep
  split
  · exact (low.complainAt _ _).skipAsError
  · dsimp only
    split
    · have field : (f.child none fun _ =>
          ((tableKey inner (f.parser.start .field)).1.child (some .value)
            (inner.binding (Power.assignment + 1))).finish).Low m :=
        low.child (key.operand h (Nat.lt_succ_self n)).finish deep
      split
      · exact field.bump
      · exact field
    · exact low.read_on key.tidy

theorem table_shallow (h : inner.Low n) (tidy : p.Tidy) : Shallow (n + 2) (table inner p) := by
  have begun : (p.start .tableConstructor).bump.Low (n + 2) :=
    ((h.start tidy (by decide)).mono (Nat.le_succ (n + 1))).bump
  exact (begun.loop fun _ low => tableStep_low h (Nat.lt_succ_self (n + 1)) low).expect.finish

theorem function_shallow (h : inner.Low n) (tidy : p.Tidy) :
    Shallow (n + 1) (function inner p) := by
  have headed : ((p.start .functionExpression).bump.parameters).Low (n + 1) :=
    Frame.parameters_low (h.start tidy (by decide)).bump (Nat.lt_succ_of_le h.room)
  exact (Frame.closedBody_low h (Nat.lt_succ_self n) headed).finish

theorem parenthesized_shallow (h : inner.Low n) (tidy : p.Tidy) :
    Shallow (n + 1) (parenthesized inner p) :=
  ((h.start tidy (by decide)).bump.operand h (Nat.lt_succ_self n)).expect.finish

/-! ### Operands -/

theorem takeLeaf_shallow (tidy : p.Tidy) : Shallow 0 p.takeLeaf := by
  unfold Parser.takeLeaf
  split
  · next item here =>
    refine ⟨(Tree.isPart_token (tidy.of_head here).token none).significant, ?_, Nat.le_refl 0⟩
    refine tidy.later ((p.later_advance item).pending _) fun t mem => ?_
    rcases List.mem_append.mp mem with mem | mem
    · exact tidy.pending t mem
    · exact (tidy.of_head here).comments t mem
  · exact ⟨rfl, tidy, Nat.le_refl 0⟩

theorem primary_shallow (h : inner.Low n) (tidy : p.Tidy) :
    Shallow (n + 2) ((primary inner p).tree, (primary inner p).parser) := by
  have leaf : Shallow (n + 2) p.takeLeaf := (takeLeaf_shallow tidy).mono (Nat.zero_le _)
  unfold primary
  split
  · exact leaf
  · exact leaf
  · exact leaf
  · exact (string_shallow tidy).mono (by have := h.room; omega)
  · exact table_shallow h tidy
  · exact (parenthesized_shallow h tidy).mono (Nat.le_succ _)
  · exact (function_shallow h tidy).mono (Nat.le_succ _)
  · exact ⟨rfl, tidy.complainAt _ _, Nat.zero_le _⟩

theorem arguments_shallow (h : inner.Low n) (tidy : p.Tidy) :
    Shallow (n + 2) (arguments inner p) := by
  unfold arguments
  split
  · exact (string_shallow tidy).mono (by have := h.room; omega)
  · exact table_shallow h tidy
  · have begun : (p.start .arguments).bump.Low (n + 1) := (h.start tidy (by decide)).bump
    apply Shallow.mono _ (Nat.le_succ (n + 1))
    apply Frame.Low.finish
    apply Frame.Low.expect
    split
    · exact begun
    · exact begun.commaSeparated fun g low => low.operand h (Nat.lt_succ_self n)

theorem methodCall_low (h : inner.Low n) (deep : n + 2 < m) (low : f.Low m) :
    (methodCall inner f).Low m := by
  unfold methodCall
  dsimp only
  split
  · exact low.bump.expectName.child (arguments_shallow h low.bump.expectName.tidy) deep
  · exact (low.bump.expectName.complainAt _ _).insertMissing

/-- An operand that is extended becomes the next link of a chain. -/
theorem extend_shallow (h : inner.Low n) (deep : n + 2 < m) {e : Operand}
    (shallow : Shallow m (e.tree, e.parser)) :
    Shallow m ((extend inner e).1.tree, (extend inner e).1.parser) := by
  have below : n < m := by omega
  have base : ∀ {kind : NodeKind}, kind.isLink = true → (e.base kind).Low m := by
    intro kind link
    have room := h.room
    exact Frame.low_link (by omega) shallow link
  have updated : ((e.parser.start .updateExpression).attach (some .operand) e.tree).Low m := by
    have room := h.room
    exact Frame.low_link (by omega) shallow rfl
  unfold extend
  split
  · exact (base rfl).bump.expectName.finish
  · exact ((base rfl).bump.operand h below).expect.finish
  · exact (methodCall_low h deep (base rfl)).finish
  · exact updated.bump.finish
  · exact updated.bump.finish
  · split
    · exact ((base rfl).child (arguments_shallow h (base rfl).tidy) deep).finish
    · exact shallow
  · exact shallow

theorem extended_shallow (h : inner.Low n) (deep : n + 2 < m) {e : Operand}
    (shallow : Shallow m (e.tree, e.parser)) : Shallow m (extended inner e) :=
  Loop.run_related
    (R := fun a b : Operand => Shallow m (a.tree, a.parser) → Shallow m (b.tree, b.parser))
    (fun first second low => second (first low)) (fun _ low => extend_shallow h deep low) e shallow

theorem operandFrom_shallow (h : inner.Low n) (deep : n + 2 < m) {first : Parser → Operand}
    (shallow : Shallow m ((first p).tree, (first p).parser)) (tidy : p.Tidy) :
    Shallow m (operandFrom inner first p) := by
  unfold operandFrom
  split
  · have begun : ((p.start .unaryExpression).bump (some .operator)).Low (n + 1) :=
      (h.start tidy (by decide)).bump
    exact (begun.operand h (Nat.lt_succ_self n)).finish.mono (by omega)
  · exact extended_shallow h deep shallow

theorem primaryOrStray_shallow (h : inner.Low n) (tidy : p.Tidy) :
    Shallow (n + 4) ((primaryOrStray inner p).tree, (primaryOrStray inner p).parser) := by
  unfold primaryOrStray
  dsimp only
  split
  · have complained := tidy.complainAt p.span .noExpression
    have begun : ((p.complain .noExpression).start .error).bump.Low (n + 4) :=
      ((h.start complained (by decide)).mono (by omega)).bump
    apply Frame.Low.finish
    split
    · have first := (primary_shallow h begun.tidy).mono (Nat.le_succ (n + 2))
      exact begun.child (operandFrom_shallow h (Nat.lt_succ_self (n + 2)) first begun.tidy)
        (Nat.lt_succ_self (n + 3))
    · exact begun
  · exact (primary_shallow h tidy).mono (by omega)

theorem operand_shallow (h : inner.Low n) (tidy : p.Tidy) :
    Shallow (n + 4) (operand inner p) :=
  operandFrom_shallow h (by omega) (primaryOrStray_shallow h tidy) tidy

/-! ### Operators -/

theorem list_shallow (h : inner.Low n) (deep : n < m) {e : Tree × Parser}
    (shallow : Shallow m e) : Shallow m (list inner e.1 e.2) := by
  have room := h.room
  have begun : ((e.2.start .expressionList).attach none e.1).Low m :=
    Frame.low_link (by omega) shallow rfl
  rw [list_eq]
  refine (begun.loop fun g low => ?_).finish
  unfold listStep
  split
  · exact low.bump.operand h deep
  · exact low

theorem join_shallow (h : inner.Low n) (deep : n < m) (power : Nat) {e : Tree × Parser}
    (shallow : Shallow m e) : Shallow m (join inner power e).1 := by
  rcases join_cases inner power e with ⟨_, j⟩ | ⟨own, side, _, _, ⟨_, j⟩ | ⟨_, j⟩⟩ <;> rw [j]
  · exact shallow
  · exact list_shallow h deep shallow
  · have room := h.room
    have link : (if e.2.kind = .equals then NodeKind.assignmentExpression
        else .binaryExpression).isLink = true := by split <;> rfl
    exact ((Frame.low_link (by omega) shallow link).bump.operand h deep).finish

theorem binding_shallow (h : inner.Low n) (power : Nat) (tidy : p.Tidy) :
    Shallow (n + 4) (binding inner power p) :=
  Loop.run_related (R := fun a b : Tree × Parser => Shallow (n + 4) a → Shallow (n + 4) b)
    (fun first second low => second (first low))
    (fun _ low => join_shallow h (by omega) power low) _ (operand_shallow h tidy)

end Expression

/-! ## Statements -/

namespace Statement

theorem branch_low (h : inner.Low n) (deep : n < m) (low : f.Low m) : (branch inner f).Low m :=
  (low.bump.operand h deep).expect

theorem elseifClause_shallow (h : inner.Low n) (tidy : p.Tidy) :
    Shallow (n + 1) (elseifClause inner p) := by
  have begun : (p.start .elseifClause).Low (n + 1) := h.start tidy (by decide)
  have headed := branch_low h (Nat.lt_succ_self n) begun
  exact (h.body branchEnds (Nat.lt_succ_self n) headed).finish

theorem elseClause_shallow (h : inner.Low n) (tidy : p.Tidy) :
    Shallow (n + 1) (elseClause inner p) :=
  (h.body [.kwEnd] (Nat.lt_succ_self n) (h.start tidy (by decide)).bump).finish

theorem branches_low (h : inner.Low n) (deep : n + 1 < m) (low : f.Low m) :
    (branches inner f).Low m := by
  have clauses : ((inner.body branchEnds f).loop (clauseStep inner)).Low m := by
    apply (h.body branchEnds (Nat.lt_of_succ_lt deep) low).loop
    intro g low
    unfold clauseStep
    split
    · exact low.child (elseifClause_shallow h low.tidy) deep
    · exact low
  rw [branches_eq]
  dsimp only
  split
  · exact clauses.child (elseClause_shallow h clauses.tidy) deep
  · exact clauses

theorem conditional_shallow (h : inner.Low n) (tidy : p.Tidy) :
    Shallow (n + 2) (conditional inner p) := by
  have begun : (p.start .ifStatement).Low (n + 2) :=
    (h.start tidy (by decide)).mono (Nat.le_succ (n + 1))
  have headed := branch_low h (by omega) begun
  exact (headed.within fun _ inside =>
    branches_low h (Nat.lt_succ_self (n + 1)) inside).close.finish

theorem repeatLoop_shallow (h : inner.Low n) (tidy : p.Tidy) :
    Shallow (n + 1) (repeatLoop inner p) := by
  have begun : (p.start .repeatStatement).bump.Low (n + 1) := (h.start tidy (by decide)).bump
  have closed : ((p.start .repeatStatement).bump.within [.kwUntil]
      (inner.body [.kwUntil])).close.Low (n + 1) :=
    (begun.within fun _ inside => h.body _ (Nat.lt_succ_self n) inside).close
  apply Frame.Low.finish
  split
  · exact closed.operand h (Nat.lt_succ_self n)
  · exact closed

theorem qualifiedName_shallow (tidy : p.Tidy) : Shallow 3 (qualifiedName p) := by
  have begun : ((p.start .functionName).bump (some .base)).Low 3 :=
    (Frame.low_start (Nat.le_refl 3) tidy (by decide)).bump
  have members : (((p.start .functionName).bump (some .base)).loop memberStep).Low 3 := by
    apply begun.loop
    intro g low
    unfold memberStep
    split
    · exact low.bump.expectName
    · exact low
  unfold qualifiedName
  rw [qualifiers_eq]
  dsimp only
  split
  · exact members.bump.expectName.finish
  · exact members.finish

theorem functionName_low (deep : 3 < m) (low : f.Low m) : (functionName f).Low m := by
  rcases functionName_cases f with ⟨_, e⟩ | ⟨_, e⟩ <;> rw [e]
  · exact low.child (qualifiedName_shallow low.tidy) deep
  · exact low.second.expectName

theorem functionDefinition_shallow (h : inner.Low n) (tidy : p.Tidy) :
    Shallow (n + 1) (functionDefinition inner p) := by
  have room := h.room
  have named : (functionName (p.start .functionDefinition).bump).Low (n + 1) :=
    functionName_low (by omega) (h.start tidy (by decide)).bump
  have headed := Frame.parameters_low named (by omega)
  exact (Frame.closedBody_low h (Nat.lt_succ_self n) headed).finish

theorem declarator_shallow (h : inner.Low n) (tidy : p.Tidy) :
    Shallow (n + 1) (declarator inner p) := by
  have named : ((p.start .declarator).expectName .name).Low (n + 1) :=
    (h.start tidy (by decide)).expectName
  rcases declarator_cases inner p with ⟨_, e⟩ | ⟨_, e⟩ <;> rw [e]
  · exact (named.bump.operand h (Nat.lt_succ_self n)).finish
  · exact named.finish

theorem declaredType_low (modified : Bool) (low : f.Low m) : (declaredType modified f).Low m := by
  rcases declaredType_cases modified f with ⟨_, e⟩ | ⟨q, looked, e⟩
  · rw [e]
    exact low.bump.bumpWhile
  · have tidy : q.Tidy := by
      rcases looked with rfl | rfl
      · exact low.tidy
      · exact ⟨low.tidy.pending, low.tidy.ahead, low.tidy.trailing⟩
    rcases e with ⟨_, e⟩ | e <;> rw [e]
    · exact low.read_on tidy
    · exact (low.read_on tidy).expectName

theorem declaration_shallow (h : inner.Low n) (tidy : p.Tidy) :
    Shallow (n + 2) (declaration inner p) := by
  have begun : (p.start .variableDeclaration).Low (n + 2) :=
    (h.start tidy (by decide)).mono (Nat.le_succ (n + 1))
  have modified : ((p.start .variableDeclaration).bumpWhile (some .modifier)
      Kind.isModifier).Low (n + 2) := begun.bumpWhile
  have typed := declaredType_low p.kind.isModifier modified
  exact (typed.commaSeparated fun g low =>
    low.child (declarator_shallow h low.tidy) (Nat.lt_succ_self (n + 1))).finish

theorem returnStatement_shallow (h : inner.Low n) (tidy : p.Tidy) :
    Shallow (n + 1) (returnStatement inner p) := by
  have begun : (p.start .returnStatement).bump.Low (n + 1) := (h.start tidy (by decide)).bump
  apply Frame.Low.finish
  split
  · exact begun.commaSeparated fun g low => low.operand h (Nat.lt_succ_self n)
  · exact begun

theorem statement_shallow (h : inner.Low n) (tidy : p.Tidy) :
    Shallow (n + 2) (statement inner p) := by
  have looked : p.second.2.Tidy := by
    rcases p.second_looked with e | e <;> rw [e]
    · exact tidy
    · exact ⟨tidy.pending, tidy.ahead, tidy.trailing⟩
  have headed : ∀ {kind : NodeKind}, kind ≠ .blockComment → (p.start kind).bump.Low (n + 1) :=
    fun other => (h.start tidy other).bump
  have block : ∀ {g : Frame}, g.Low (n + 1) → Shallow (n + 2) (g.closedBody inner).finish :=
    fun low => (Frame.closedBody_low h (Nat.lt_succ_self n) low).finish.mono (Nat.le_succ _)
  have plain : ∀ {q : Parser}, q.Tidy → Shallow (n + 2) (expression inner q) := fun tidy =>
    ((h.start tidy (by decide)).operand h (Nat.lt_succ_self n)).finish.mono (Nat.le_succ _)
  unfold statement
  split
  · exact declaration_shallow h tidy
  · exact declaration_shallow h tidy
  · exact declaration_shallow h tidy
  · dsimp only
    split
    · exact declaration_shallow h looked
    · exact plain looked
  · exact block (headed (by decide))
  · exact block (headed (by decide)).expectName
  · exact block (headed (by decide))
  · exact block (headed (by decide))
  · exact block ((headed (by decide)).operand h (Nat.lt_succ_self n)).expect
  · exact (repeatLoop_shallow h tidy).mono (Nat.le_succ _)
  · exact conditional_shallow h tidy
  · dsimp only
    split
    · exact (functionDefinition_shallow h looked).mono (Nat.le_succ _)
    · exact plain looked
  · exact (returnStatement_shallow h tidy).mono (Nat.le_succ _)
  · exact (headed (by decide)).finish.mono (Nat.le_succ _)
  · exact (headed (by decide)).finish.mono (Nat.le_succ _)
  · exact plain tidy

theorem bodyStep_low (h : inner.Low n) (deep : n + 2 < m) (construct : NodeKind)
    (terminators : List Kind) (low : f.Low m) :
    (bodyStep inner construct terminators f).1.Low m := by
  unfold bodyStep
  dsimp only
  split
  · exact low
  · split
    · exact low.child (statement_shallow h low.tidy) deep
    · exact (low.complainAt _ _).skipAsError

theorem body_low (h : inner.Low n) (deep : n + 3 < m) (terminators : List Kind)
    (low : f.Low m) : (body inner terminators f).Low m := by
  have block : ((f.parser.start .block).loop (bodyStep inner f.kind terminators)).Low (n + 3) :=
    ((h.start low.tidy (by decide)).mono (by omega)).loop fun _ low =>
      bodyStep_low h (Nat.lt_succ_self (n + 2)) _ _ low
  unfold body
  dsimp only
  split
  · exact low.read_on block.tidy
  · exact low.child block.finish deep

end Statement

/-! ## Levels -/

namespace Level

theorem cutOff_low (limit : Nat) : (cutOff limit).Low 4 where
  room := Nat.le_refl 4
  binding power p tidy := by
    have complained := tidy.complainTooDeep limit
    rcases cutOff_binding_cases limit power p with ⟨_, e⟩ | ⟨count, _, e⟩ <;> rw [e]
    · exact ⟨rfl, complained, Nat.zero_le 4⟩
    · exact ((Frame.low_start (by decide) complained (by decide)).bumps _).finish
  body terminators m f deep low := by
    have complained := low.tidy.complainTooDeep limit
    rcases cutOff_body_cases limit terminators f with ⟨_, e⟩ | ⟨_, count, e⟩ <;> rw [e]
    · exact low.read_on complained
    · have skipped : Shallow 3
          (((complainTooDeep limit f.parser).start .error).bumps (count + 1)).finish :=
        ((Frame.low_start (Nat.le_refl 3) complained (by decide)).bumps _).finish
      have block : (Parser.start _ .block).Low 4 :=
        Frame.low_start (by decide) skipped.tidy (by decide)
      exact low.child (block.attach (Nat.lt_succ_of_le skipped.nesting)).finish deep

theorem above_low (limit : Nat) (h : inner.Low n) : (inner.above limit).Low (n + 4) where
  room := Nat.le_add_left 4 n
  binding power p tidy := by
    rcases above_binding_cases limit inner power p with ⟨_, e⟩ | ⟨_, e⟩ <;> rw [e]
    · exact ((cutOff_low limit).binding power tidy).mono (Nat.le_add_left 4 n)
    · have read := Expression.binding_shallow h power (p := { p with depth := p.depth + 1 })
        ⟨tidy.pending, tidy.ahead, tidy.trailing⟩
      exact ⟨read.significant, ⟨read.tidy.pending, read.tidy.ahead, read.tidy.trailing⟩,
        read.nesting⟩
  body terminators m f deep low := by
    rcases above_body_cases limit inner terminators f with ⟨_, e⟩ | ⟨_, e⟩ <;> rw [e]
    · exact (cutOff_low limit).body terminators (by omega) low
    · have read := Statement.body_low h (by omega) terminators
        (low.read_on (q := { f.parser with depth := f.parser.depth + 1 })
          ⟨low.tidy.pending, low.tidy.ahead, low.tidy.trailing⟩)
      exact read.read_on ⟨read.tidy.pending, read.tidy.ahead, read.tidy.trailing⟩

/-- Each level adds four. -/
theorem stack_low (limit room : Nat) : (stack limit room).Low (4 * (room + 1)) := by
  induction room with
  | zero => exact cutOff_low limit
  | succ room ih => exact above_low limit ih

end Level

end JassSyntax
