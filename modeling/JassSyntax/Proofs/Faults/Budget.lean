import JassSyntax.Proofs.Faults.Charges
import JassSyntax.Proofs.Recovery.Literals

/-!
# How many complaints a text can have

Every construct is charged for what it complains about, and its tokens pay. What can begin with the
current token costs nothing in the end. Only where something should begin and does not, and for a
body that lies too deep, one complaint is left over. The keyword in front of such a place pays for
it: no keyword has more than four of them behind it.
-/

namespace JassSyntax

/-- What the level reads costs at most one complaint, and an expression that can begin costs
none. -/
structure Level.Charged (inner : Level) : Prop where
  binding : ∀ power p, Parser.Charges 1 p (inner.binding power p).2
  starting : ∀ power p, p.kind.canStartExpression = true →
    Parser.Charges 0 p (inner.binding power p).2
  body : ∀ terminators (f : Frame), f.parser.Charges 1 (inner.body terminators f).parser

variable {inner : Level} {p : Parser} {f : Frame} {n : Int}

open JassSyntax.Parser (Charges)

/-! ## Parts of blocks -/

namespace Parser.Charges

theorem operand (h : p.Charges n f.parser) (charged : inner.Charged) (role : Option Role)
    (power : Nat) : p.Charges (n + 1) (f.child role (inner.binding power)).parser :=
  h.child role (charged.binding power f.parser)

theorem closedBody (h : p.Charges n f.parser) (charged : inner.Charged) :
    p.Charges (n + 2) (f.closedBody inner).parser :=
  ((h.within f.kind.closer.toList fun g => charged.body _ g).close).mono (by omega)

end Parser.Charges

namespace Frame

theorem parameter_charges (here : p.kind ≠ .eof) : p.Charges (-4) (parameter p).2 := by
  rcases parameter_cases p with ⟨-, e⟩ | ⟨-, e⟩ <;> rw [e]
  · exact ((Charges.refl p).bump (f := p.start .parameter) _ here).bump_le _
  · have looked : p.Charges 0 p.second.2 := (Charges.refl p).looking p.second_looked
    exact looked.bump (f := { p.start .parameter with parser := p.second.2 }) _
      (by rw [Frame.current]; exact p.kind_second.symm ▸ here)

theorem parameterList_charges (p : Parser) : p.Charges 1 (parameterList p).2 := by
  have demanded := (Charges.refl p).demand (f := p.start .parameters) none
    (c := .unexpected .lParen) rfl (by decide)
  unfold parameterList
  dsimp only
  split
  · next opened =>
    refine (((demanded.2 opened).loop fun g => ?_).expect .rParen none (by decide)).mono
      (by decide)
    split
    · next name =>
      have read : g.parser.Charges (0 + -4) (g.child none parameter).parser :=
        (Charges.refl g.parser).child none (parameter_charges (by
          rw [show g.parser.kind = .identifier from name]
          decide))
      exact ((read.eat .comma (by decide)).1).mono (by decide)
    · exact .refl _
  · exact demanded.1

end Frame

theorem Parser.Charges.parameters (h : p.Charges n f.parser) :
    p.Charges (n + 1) f.parameters.parser := by
  rw [Frame.parameters_eq]
  exact h.child _ (Frame.parameterList_charges f.parser)

/-! ## Expressions -/

namespace Expression

theorem string_charges (here : p.kind ≠ .eof) : p.Charges (-3) (string p).2 := by
  have begun := (Charges.refl p).bump (f := p.start .string) (some .opening) here
  unfold string
  dsimp only
  split
  · exact ((begun.bump_le _).expect _ _ (by decide)).mono (by decide)
  · exact (begun.expect _ _ (by decide)).mono (by decide)

/-- A key pays for itself and for the value behind it. Without a key the value begins here. -/
theorem tableKey_charges (charged : inner.Charged) (f : Frame) :
    f.parser.Charges 0 (tableKey inner f).1.parser ∧
      ((tableKey inner f).2 = true →
        f.parser.Charges 0 ((tableKey inner f).1.child (some .value)
          (inner.binding (Power.assignment + 1))).parser) := by
  have begins {g : Frame} (h : f.parser.Charges 0 g.parser)
      (starts : g.parser.kind.canStartExpression = true) :
      f.parser.Charges 0 (g.child (some .value) (inner.binding (Power.assignment + 1))).parser :=
    h.child _ (charged.starting _ _ starts)
  have same := Charges.refl f.parser
  unfold tableKey
  split
  · next bracket =>
    have key := (((same.bump none (by rw [bracket]; decide)).operand charged (some .key)
      Power.assignment).expect .rBracket none (by decide)).expect .equals none (by decide)
    exact ⟨key.mono (by decide), fun _ => (key.operand charged _ _).mono (by decide)⟩
  · next name =>
    have looked := same.second
    have current : f.second.2.current = .identifier := f.parser.kind_second.trans name
    dsimp only
    split
    · have key := (looked.bump (some .key) (by rw [current]; decide)).bump_le none
      exact ⟨key.mono (by decide), fun _ => (key.operand charged _ _).mono (by decide)⟩
    · refine ⟨looked, fun _ => begins looked ?_⟩
      rw [show f.second.2.parser.kind = .identifier from current]
      rfl
  · exact ⟨same, begins same⟩

theorem tableStep_charges (charged : inner.Charged) (f : Frame) :
    f.parser.Charges 0 (tableStep inner f).1.parser := by
  have same := Charges.refl f.parser
  unfold tableStep
  split
  · next separator =>
    have apt : f.parser.kind ∉ Complaint.noTableField.expected := by
      rcases separator with h | h <;> rw [show f.parser.kind = _ from h] <;> decide
    exact ((same.complainAt f.parser.span apt).skipAsError (f := f.complain .noTableField)
      (Kind.ne_eof_of_separator separator)).mono (by decide)
  · obtain ⟨key, value⟩ := tableKey_charges charged (f.parser.start .field)
    dsimp only
    split
    · next begins =>
      have field : f.parser.Charges (0 + 0) (f.child none fun _ =>
          ((tableKey inner (f.parser.start .field)).1.child (some .value)
            (inner.binding (Power.assignment + 1))).finish).parser :=
        same.child none (value begins)
      split
      · exact field.bump_le none
      · exact field
    · exact key

theorem table_charges (charged : inner.Charged) (here : p.kind ≠ .eof) :
    p.Charges (-3) (table inner p).2 := by
  have begun := (Charges.refl p).bump (f := p.start .tableConstructor) none here
  exact ((begun.loop fun g => tableStep_charges charged g).expect _ _ (by decide)).mono (by decide)

theorem function_charges (charged : inner.Charged) (here : p.kind ≠ .eof) :
    p.Charges (-1) (function inner p).2 := by
  have begun := (Charges.refl p).bump (f := p.start .functionExpression) none here
  exact (begun.parameters.closedBody charged).mono (by decide)

theorem parenthesized_charges (charged : inner.Charged) (here : p.kind ≠ .eof) :
    p.Charges (-2) (parenthesized inner p).2 := by
  have begun := (Charges.refl p).bump (f := p.start .parenthesizedExpression) none here
  exact ((begun.operand charged _ _).expect _ _ (by decide)).mono (by decide)

/-! ### Operands -/

theorem takeLeaf_charges (here : p.kind ≠ .eof) : p.Charges (-4) p.takeLeaf.2 := by
  obtain ⟨item, head, -⟩ := Parser.head_of_kind rfl here
  simp only [Parser.takeLeaf, head]
  exact ((Charges.refl p).advance head).same rfl rfl

theorem primary_charges (charged : inner.Charged) (p : Parser) :
    p.Charges 1 (primary inner p).parser ∧
      (p.kind.canStartExpression = true → p.kind.isUnary = false →
        p.Charges 0 (primary inner p).parser) := by
  have paid {q : Parser} {k : Kind} {m : Int} (kind : p.kind = k) (real : k ≠ .eof)
      (few : m ≤ 0) (reads : p.kind ≠ .eof → p.Charges m q) :
      p.Charges 1 q ∧ (p.kind.canStartExpression = true → p.kind.isUnary = false →
        p.Charges 0 q) := by
    have h := reads (kind ▸ real)
    exact ⟨h.mono (by omega), fun _ _ => h.mono few⟩
  unfold primary
  split
  · next kind => exact paid kind (by decide) (by decide) takeLeaf_charges
  · next kind => exact paid kind (by decide) (by decide) takeLeaf_charges
  · next kind => exact paid kind (by decide) (by decide) takeLeaf_charges
  · next kind => exact paid kind (by decide) (by decide) string_charges
  · next kind => exact paid kind (by decide) (by decide) (table_charges charged)
  · next kind => exact paid kind (by decide) (by decide) (parenthesized_charges charged)
  · next kind => exact paid kind (by decide) (by decide) (function_charges charged)
  · clear paid
    refine ⟨(Charges.refl p).complainAt p.span ?_, fun starts unary => ?_⟩
    · cases k : p.kind <;> simp_all [Complaint.expected]
    · cases k : p.kind <;> simp_all [Kind.canStartExpression, Kind.isUnary]

theorem arguments_charges (charged : inner.Charged) (here : p.kind ≠ .eof) :
    p.Charges (-2) (arguments inner p).2 := by
  unfold arguments
  split
  · exact (string_charges here).mono (by decide)
  · exact (table_charges charged here).mono (by decide)
  · have begun := (Charges.refl p).bump (f := p.start .arguments) none here
    dsimp only
    split
    · exact (begun.expect _ _ (by decide)).mono (by decide)
    · have parts := begun.commaSeparated (by decide) fun g =>
        (Charges.refl g.parser).operand charged none Power.assignment
      exact (parts.expect _ _ (by decide)).mono (by decide)

theorem methodCall_charges (charged : inner.Charged) (here : f.current ≠ .eof) :
    f.parser.Charges 0 (methodCall inner f).parser := by
  have named := ((Charges.refl f.parser).bump none here).expectName .method
  unfold methodCall
  dsimp only
  split
  · next starts =>
    exact (named.child _ (arguments_charges charged (Kind.ne_eof_of_startsArguments starts))).mono
      (by decide)
  · next other =>
    refine Charges.attach (Charges.mono (named.complainAt _ ?_) (by decide)) _ _
    intro mem
    refine other ?_
    rw [Frame.current]
    revert mem
    cases (f.bump.expectName .method).parser.kind <;> decide

theorem extend_charges (charged : inner.Charged) (e : Operand) :
    e.parser.Charges 0 (extend inner e).1.parser := by
  have base (kind : NodeKind) : e.parser.Charges 0 (e.base kind).parser :=
    (Charges.refl e.parser).attach (f := e.parser.start kind) _ e.tree
  have update : e.parser.Charges 0
      ((e.parser.start .updateExpression).attach (some .operand) e.tree).parser :=
    (Charges.refl e.parser).attach (f := e.parser.start .updateExpression) _ e.tree
  have real {k : Kind} (kind : e.parser.kind = k) (other : k ≠ .eof) : e.parser.kind ≠ .eof :=
    kind ▸ other
  unfold extend
  split
  · next kind _ =>
    exact (((base .memberExpression).bump none (real kind (by decide))).expectName _).mono
      (by decide)
  · next kind _ =>
    exact ((((base .indexExpression).bump none (real kind (by decide))).operand charged _ _).expect
      _ _ (by decide)).mono (by decide)
  · next kind _ =>
    exact (base .functionCall).trans (methodCall_charges charged (real kind (by decide)))
  · next kind =>
    exact (update.bump _ (real kind (by decide))).mono (by decide)
  · next kind =>
    exact (update.bump _ (real kind (by decide))).mono (by decide)
  · split
    · next starts =>
      exact ((base .functionCall).child (some .args)
        (arguments_charges charged (Kind.ne_eof_of_startsArguments starts))).mono (by decide)
    · exact .refl _
  · exact .refl _

theorem extended_charges (charged : inner.Charged) (e : Operand) :
    e.parser.Charges 0 (extended inner e).2 :=
  Loop.run_related (R := fun a b : Operand => a.parser.Charges 0 b.parser)
    (fun first second => by simpa using first.trans second) (extend_charges charged) e

/-- An operator pays for the operand behind it. -/
theorem operandFrom_charges (charged : inner.Charged) {first : Parser → Operand} (few : 0 ≤ n)
    (reads : p.kind.isUnary = false → p.Charges n (first p).parser) :
    p.Charges n (operandFrom inner first p).2 := by
  unfold operandFrom
  split
  · next unary =>
    have begun := (Charges.refl p).bump (f := p.start .unaryExpression) (some .operator)
      (Kind.ne_eof_of_isUnary unary)
    exact (begun.operand charged (some .operand) _).mono (by omega)
  · next other =>
    have read := (reads (Bool.eq_false_iff.mpr other)).trans (extended_charges charged (first p))
    exact read.mono (by omega)

/-- A stray token pays for the complaint about it. -/
theorem primaryOrStray_charges (charged : inner.Charged) (p : Parser) :
    p.Charges 1 (primaryOrStray inner p).parser ∧
      (p.kind.canStartExpression = true → p.kind.isUnary = false →
        p.Charges 0 (primaryOrStray inner p).parser) := by
  unfold primaryOrStray
  dsimp only
  split
  · next stray =>
    have apt : p.kind ∉ Complaint.noExpression.expected := by
      have stray := stray.1
      revert stray
      cases p.kind <;> decide
    have skipped := ((Charges.refl p).complainAt p.span apt).bump
      (f := (p.complain .noExpression).start .error) none (Kind.ne_eof_of_isStray stray.1)
    suffices p.Charges 0 (Operand.ofFrame
        (if ((p.complain .noExpression).start .error).bump.current.canStartExpression then
          ((p.complain .noExpression).start .error).bump.child none
            (operandFrom inner (primary inner))
        else ((p.complain .noExpression).start .error).bump) false).parser from
      ⟨this.mono (by decide), fun _ _ => this⟩
    split
    · have read := operandFrom_charges charged (by decide)
        fun _ => (primary_charges charged ((p.complain .noExpression).start .error).bump.parser).1
      exact (skipped.child none read).mono (by decide)
    · exact skipped.mono (by decide)
  · exact primary_charges charged p

theorem operand_charges (charged : inner.Charged) (p : Parser) :
    p.Charges 1 (operand inner p).2 ∧
      (p.kind.canStartExpression = true → p.Charges 0 (operand inner p).2) := by
  obtain ⟨reads, starting⟩ := primaryOrStray_charges charged p
  exact ⟨operandFrom_charges charged (by decide) fun _ => reads,
    fun starts => operandFrom_charges charged (Int.le_refl 0) fun other => starting starts other⟩

/-! ### Operators -/

theorem list_charges (charged : inner.Charged) (e : Tree × Parser) :
    e.2.Charges 0 (list inner e.1 e.2).2 := by
  have begun := (Charges.refl e.2).attach (f := e.2.start .expressionList) none e.1
  rw [list_eq]
  refine begun.loop fun g => ?_
  unfold listStep
  split
  · next comma =>
    have taken := (Charges.refl g.parser).bump none (by rw [comma]; decide)
    exact (taken.operand charged none _).mono (by decide)
  · exact .refl _

/-- An operator pays for its right operand. -/
theorem join_charges (charged : inner.Charged) (power : Nat) (e : Tree × Parser) :
    e.2.Charges 0 (join inner power e).1.2 := by
  rcases join_cases inner power e with ⟨_, j⟩ | ⟨own, side, op, _, ⟨_, j⟩ | ⟨_, j⟩⟩ <;> rw [j]
  · exact .refl _
  · exact list_charges charged e
  · have begun (kind : NodeKind) := (Charges.refl e.2).attach (f := e.2.start kind) (some .left) e.1
    exact (((begun _).bump _ (Kind.ne_eof_of_binary? op)).operand charged
      (some .right) _).mono (by decide)

theorem binding_charges (charged : inner.Charged) (power : Nat) (p : Parser) :
    p.Charges 1 (binding inner power p).2 ∧
      (p.kind.canStartExpression = true → p.Charges 0 (binding inner power p).2) := by
  obtain ⟨reads, starting⟩ := operand_charges charged p
  have goesOn : (operand inner p).2.Charges 0 (binding inner power p).2 :=
    Loop.run_related (R := fun a b : Tree × Parser => a.2.Charges 0 b.2)
      (fun first second => by simpa using first.trans second) (join_charges charged power) _
  exact ⟨reads.trans goesOn, fun starts => (starting starts).trans goesOn⟩

end Expression

/-! ## Statements -/

namespace Statement

theorem branch_charges (charged : inner.Charged) (here : f.current ≠ .eof) :
    f.parser.Charges (-2) (branch inner f).parser :=
  ((((Charges.refl f.parser).bump none here).operand charged _ _).expect _ _ (by decide)).mono
    (by decide)

theorem elseifClause_charges (charged : inner.Charged) (here : p.kind ≠ .eof) :
    p.Charges (-1) (elseifClause inner p).2 :=
  (branch_charges charged (f := p.start .elseifClause) here).trans (charged.body branchEnds _)

theorem elseClause_charges (charged : inner.Charged) (here : p.kind ≠ .eof) :
    p.Charges (-3) (elseClause inner p).2 :=
  ((Charges.refl p).bump (f := p.start .elseClause) none here).trans (charged.body [.kwEnd] _)

theorem branches_charges (charged : inner.Charged) (f : Frame) :
    f.parser.Charges 1 (branches inner f).parser := by
  have first : f.parser.Charges 1 (inner.body branchEnds f).parser := charged.body branchEnds f
  have clauses : f.parser.Charges 1 ((inner.body branchEnds f).loop (clauseStep inner)).parser := by
    refine first.loop fun g => ?_
    unfold clauseStep
    split
    · next other =>
      have here : g.parser.kind ≠ .eof := by
        rw [show g.parser.kind = .kwElseIf from other]
        decide
      exact ((Charges.refl g.parser).child _ (elseifClause_charges charged here)).mono (by decide)
    · exact .refl _
  rw [branches_eq]
  dsimp only
  split
  · next last =>
    have here : ((inner.body branchEnds f).loop (clauseStep inner)).parser.kind ≠ .eof := by
      rw [show Parser.kind _ = .kwElse from last]
      decide
    exact (clauses.child _ (elseClause_charges charged here)).mono (by decide)
  · exact clauses

theorem conditional_charges (charged : inner.Charged) (here : p.kind ≠ .eof) :
    p.Charges 0 (conditional inner p).2 := by
  have headed := branch_charges charged (f := p.start .ifStatement) here
  exact (headed.within branchEnds (branches_charges charged)).close

theorem repeatLoop_charges (charged : inner.Charged) (here : p.kind ≠ .eof) :
    p.Charges (-1) (repeatLoop inner p).2 := by
  have begun := (Charges.refl p).bump (f := p.start .repeatStatement) none here
  have closed := (begun.within [.kwUntil] (charged.body [.kwUntil])).close
  unfold repeatLoop
  dsimp only
  split
  · exact (closed.operand charged (some .condition) _).mono (by decide)
  · exact closed.mono (by decide)

theorem simpleBlock_charges (charged : inner.Charged) (kind : NodeKind) (here : p.kind ≠ .eof) :
    p.Charges (-2) (simpleBlock inner kind p).2 :=
  ((Charges.refl p).bump (f := p.start kind) none here).closedBody charged

theorem struct_charges (charged : inner.Charged) (here : p.kind ≠ .eof) :
    p.Charges (-1) (struct inner p).2 :=
  (((Charges.refl p).bump (f := p.start .structDefinition) none here).expectName .name).closedBody
    charged

/-- The keyword is left with nothing when condition, `do`, body and closer go wrong. -/
theorem whileLoop_charges (charged : inner.Charged) (here : p.kind ≠ .eof) :
    p.Charges 0 (whileLoop inner p).2 := by
  have begun := (Charges.refl p).bump (f := p.start .whileStatement) none here
  exact ((begun.operand charged _ _).expect _ _ (by decide)).closedBody charged

/-! ### Functions -/

theorem qualifiedName_charges (p : Parser) : p.Charges 0 (qualifiedName p).2 := by
  have begun := (Charges.refl p).bump_le (f := p.start .functionName) (some .base)
  have members : p.Charges 0
      (((p.start .functionName).bump (some .base)).loop memberStep).parser := by
    refine begun.loop fun g => ?_
    unfold memberStep
    split
    · next dot =>
      have taken := (Charges.refl g.parser).bump none (by rw [dot]; decide)
      exact (taken.expectName .name).mono (by decide)
    · exact .refl _
  unfold qualifiedName
  rw [qualifiers_eq]
  dsimp only
  split
  · next colon =>
    have taken := members.bump none (by rw [colon]; decide)
    exact (taken.expectName .method).mono (by decide)
  · exact members

theorem functionName_charges (f : Frame) : f.parser.Charges 1 (functionName f).parser := by
  rcases functionName_cases f with ⟨_, e⟩ | ⟨_, e⟩ <;> rw [e]
  · exact ((Charges.refl f.parser).child _ (qualifiedName_charges f.parser)).mono (by decide)
  · exact (Charges.refl f.parser).second.expectName .name

theorem functionDefinition_charges (charged : inner.Charged) (here : p.kind ≠ .eof) :
    p.Charges 0 (functionDefinition inner p).2 := by
  have begun := (Charges.refl p).bump (f := p.start .functionDefinition) none here
  exact ((begun.trans (functionName_charges _)).parameters).closedBody charged

/-! ### Declarations -/

theorem declarator_charges (charged : inner.Charged) (p : Parser) :
    p.Charges 1 (declarator inner p).2 := by
  have named := (Charges.refl p).expectName (f := p.start .declarator) .name
  rcases declarator_cases inner p with ⟨assigned, e⟩ | ⟨_, e⟩ <;> rw [e]
  · have taken := named.bump none (by rw [assigned]; decide)
    exact (taken.operand charged (some .value) _).mono (by decide)
  · exact named

/-- A type that is there pays for the declarator behind it. -/
theorem declaredType_charges (modified : Bool) (f : Frame) :
    f.parser.Charges 1 (declaredType modified f).parser ∧
      (f.current = .identifier →
        f.parser.second.1 = .identifier ∨ f.parser.second.1 = .kwArray →
        f.parser.Charges (-4) (declaredType modified f).parser) := by
  rcases declaredType_cases modified f with ⟨⟨name, _⟩, e⟩ | ⟨q, looked, e⟩
  · rw [e]
    have typed := ((Charges.refl f.parser).bump (some .type) (by rw [name]; decide)).bumpWhile
      (some .modifier) (· = .kwArray)
    exact ⟨typed.mono (by decide), fun _ _ => typed.mono (by decide)⟩
  · have same : f.parser.Charges 0 q := (Charges.refl f.parser).looking looked
    have named : f.parser.Charges 1 (declaredType modified f).parser := by
      rcases e with ⟨_, e⟩ | e <;> rw [e]
      · exact same.mono (by decide)
      · exact same.expectName (f := { f with parser := q }) .type
    refine ⟨named, fun name typed => ?_⟩
    rw [declaredType_typed modified name typed]
    exact ((Charges.refl f.parser).bump (some .type) (by rw [name]; decide)).bumpWhile _ _

theorem declaration_charges (charged : inner.Charged)
    (begins : p.kind.isModifier = true ∨
      p.kind = .identifier ∧ (p.second.1 = .identifier ∨ p.second.1 = .kwArray)) :
    p.Charges (-2) (declaration inner p).2 := by
  have typed : p.Charges (-3) (declaredType p.kind.isModifier
      ((p.start .variableDeclaration).bumpWhile (some .modifier) Kind.isModifier)).parser := by
    rcases begins with modifier | ⟨name, typed⟩
    · have real : p.kind ≠ .eof := by
        intro eof
        rw [eof] at modifier
        cases modifier
      have modified := (Charges.refl p).bumpWhile_of (f := p.start .variableDeclaration)
        (some .modifier) real modifier
      exact modified.trans (declaredType_charges _ _).1
    · have plain : p.kind.isModifier = false := by rw [name]; rfl
      rw [Frame.bumpWhile_of_not (f := p.start .variableDeclaration) _ _ plain]
      exact ((declaredType_charges _ (p.start .variableDeclaration)).2 name typed).mono (by decide)
  exact typed.commaSeparated (by decide) fun g =>
    (Charges.refl g.parser).child (some .declarator) (declarator_charges charged g.parser)

/-! ### All statements -/

theorem returnStatement_charges (charged : inner.Charged) (here : p.kind ≠ .eof) :
    p.Charges (-3) (returnStatement inner p).2 := by
  have begun := (Charges.refl p).bump (f := p.start .returnStatement) none here
  unfold returnStatement
  dsimp only
  split
  · exact begun.commaSeparated (by decide) fun g =>
      (Charges.refl g.parser).operand charged (some .value) Power.assignment
  · exact begun.mono (by decide)

theorem expression_charges (charged : inner.Charged) (starts : p.kind.canStartExpression = true) :
    p.Charges 0 (expression inner p).2 :=
  (Charges.refl p).child (f := p.start .expressionStatement) none (charged.starting _ p starts)

/-- What a statement complains about, its own tokens pay for. -/
theorem statement_charges (charged : inner.Charged) (starts : p.kind.canStartStatement = true) :
    p.Charges 0 (statement inner p).2 := by
  have here : p.kind ≠ .eof := Kind.ne_eof_of_canStartStatement starts
  have looked : p.Charges 0 p.second.2 := (Charges.refl p).looking p.second_looked
  have plain (starts : p.kind.canStartExpression = true) :
      p.Charges 0 (expression inner p.second.2).2 :=
    looked.trans (expression_charges charged (p.kind_second.symm ▸ starts))
  unfold statement
  split
  · next kind => exact (declaration_charges charged (.inl (kind ▸ rfl))).mono (by decide)
  · next kind => exact (declaration_charges charged (.inl (kind ▸ rfl))).mono (by decide)
  · next kind => exact (declaration_charges charged (.inl (kind ▸ rfl))).mono (by decide)
  · next kind =>
    dsimp only
    split
    · next typed =>
      have same : p.second.2 = p :=
        Parser.second_of_ne_eof (by rcases typed with h | h <;> rw [h] <;> decide)
      rw [same]
      exact (declaration_charges charged (.inr ⟨kind, typed⟩)).mono (by decide)
    · exact plain (kind ▸ rfl)
  · exact (simpleBlock_charges charged _ here).mono (by decide)
  · exact (struct_charges charged here).mono (by decide)
  · exact (simpleBlock_charges charged _ here).mono (by decide)
  · exact (simpleBlock_charges charged _ here).mono (by decide)
  · exact whileLoop_charges charged here
  · exact (repeatLoop_charges charged here).mono (by decide)
  · exact conditional_charges charged here
  · next kind =>
    dsimp only
    split
    · next named =>
      have same : p.second.2 = p := Parser.second_of_ne_eof (by rw [named]; decide)
      rw [same]
      exact functionDefinition_charges charged here
    · exact plain (kind ▸ rfl)
  · exact (returnStatement_charges charged here).mono (by decide)
  · exact ((Charges.refl p).bump (f := p.start .breakStatement) none here).mono (by decide)
  · exact ((Charges.refl p).bump (f := p.start .emptyStatement) none here).mono (by decide)
  · refine expression_charges charged ?_
    cases k : p.kind <;> simp_all [Kind.canStartStatement]

theorem bodyStep_charges (charged : inner.Charged) (construct : NodeKind)
    (terminators : List Kind) (f : Frame) :
    f.parser.Charges 0 (bodyStep inner construct terminators f).1.parser := by
  unfold bodyStep
  dsimp only
  split
  · exact .refl _
  · next goesOn =>
    split
    · next starts => exact (Charges.refl f.parser).child none (statement_charges charged starts)
    · obtain ⟨here, other, -⟩ : f.current ≠ .eof ∧ terminators.contains f.current ≠ true ∧ _ := by
        simpa only [not_or] using goesOn
      have apt : f.parser.kind ∉ (if f.current.isClosingKeyword = true then
          Complaint.closesNothing terminators
          else Complaint.strayInside construct terminators).expected := by
        have absent : f.parser.kind ∉ terminators := fun mem =>
          other (List.contains_iff_mem.mpr mem)
        split <;> exact absent
      exact (((Charges.refl f.parser).complainAt f.parser.span apt).skipAsError
        (f := f.complain _) here).mono (by decide)

theorem body_charges (charged : inner.Charged) (terminators : List Kind) (f : Frame) :
    f.parser.Charges 0 (body inner terminators f).parser := by
  have read : f.parser.Charges 0
      ((f.parser.start .block).loop (bodyStep inner f.kind terminators)).parser :=
    (Charges.refl f.parser).loop (f := f.parser.start .block)
      (bodyStep_charges charged f.kind terminators)
  unfold body
  dsimp only
  split
  · exact read
  · exact read.same rfl rfl

end Statement

/-! ## Levels -/

namespace Level

/-- An operand beyond the limit pays for the complaint about it. -/
theorem cutOff_charged (limit : Nat) : (cutOff limit).Charged := by
  have complained (p : Parser) : p.Charges 1 (complainTooDeep limit p) :=
    (Charges.refl p).complainTooDeep limit
  refine ⟨fun power p => ?_, fun power p starts => ?_, fun terminators f => ?_⟩
  · rcases cutOff_binding_cases limit power p with ⟨_, e⟩ | ⟨count, _, e⟩ <;> rw [e]
    · exact complained p
    · exact (complained p).bumps_le (f := (complainTooDeep limit p).start .error) _
  · obtain ⟨item, head, kind⟩ := Parser.head_of_kind rfl (Kind.ne_eof_of_canStartExpression starts)
    obtain ⟨items, ahead⟩ := List.head?_eq_some_iff.mp head
    have some : 0 < regionLength .operand 0 p.ahead.toList := by
      rw [ahead]
      refine regionLength_pos_iff.mpr fun ends => ?_
      have stops := ends.2
      rw [Extent.endsBefore, kind, starts] at stops
      cases stops
    rcases cutOff_binding_cases limit power p with ⟨none, _⟩ | ⟨count, _, e⟩
    · exact absurd none (Nat.ne_of_gt some)
    · rw [e]
      have skipped := (complained p).bumps (f := (complainTooDeep limit p).start .error)
        (by simp [Parser.start, complainTooDeep_ahead, ahead]) count
      exact skipped.mono (by decide)
  · rcases cutOff_body_cases limit terminators f with ⟨_, e⟩ | ⟨_, count, e⟩ <;> rw [e]
    · exact complained f.parser
    · have skipped := (complained f.parser).bumps_le
        (f := (complainTooDeep limit f.parser).start .error) (count + 1)
      exact (Charges.refl f.parser).child (some .body) (skipped.same rfl rfl)

theorem above_charged (limit : Nat) (charged : inner.Charged) : (inner.above limit).Charged := by
  have cut := cutOff_charged limit
  refine ⟨fun power p => ?_, fun power p starts => ?_, fun terminators f => ?_⟩
  · rcases above_binding_cases limit inner power p with ⟨_, e⟩ | ⟨_, e⟩ <;> rw [e]
    · exact cut.binding power p
    · have deeper : p.Charges 0 { p with depth := p.depth + 1 } := .of_same rfl rfl
      exact (deeper.trans (Expression.binding_charges charged power _).1).same rfl rfl
  · rcases above_binding_cases limit inner power p with ⟨_, e⟩ | ⟨_, e⟩ <;> rw [e]
    · exact cut.starting power p starts
    · have deeper : p.Charges 0 { p with depth := p.depth + 1 } := .of_same rfl rfl
      exact (deeper.trans ((Expression.binding_charges charged power _).2 starts)).same rfl rfl
  · rcases above_body_cases limit inner terminators f with ⟨_, e⟩ | ⟨_, e⟩ <;> rw [e]
    · exact cut.body terminators f
    · have deeper : f.parser.Charges 0 { f.parser with depth := f.parser.depth + 1 } :=
        .of_same rfl rfl
      have read := deeper.trans (Statement.body_charges charged terminators
        { f with parser := { f.parser with depth := f.parser.depth + 1 } })
      exact (read.mono (by decide)).same rfl rfl

theorem stack_charged (limit room : Nat) : (stack limit room).Charged := by
  induction room with
  | zero => exact cutOff_charged limit
  | succ room ih => exact above_charged limit ih

end Level

/-! ## Programs -/

namespace Program

theorem step_charges (charged : inner.Charged) (f : Frame) :
    f.parser.Charges 0 (step inner f).1.parser := by
  unfold step
  dsimp only
  split
  · exact .refl _
  · next here =>
    split
    · next starts =>
      exact (Charges.refl f.parser).child none (Statement.statement_charges charged starts)
    · exact (((Charges.refl f.parser).complainAt f.parser.span
        (c := .strayAtTopLevel) (List.not_mem_nil)).skipAsError (f := f.complain _) here).mono
        (by decide)

theorem loop_charges (limit : Nat) (p : Parser) :
    p.Charges 0 ((p.start .program).loop (step (.stack limit limit))).parser :=
  (Charges.refl p).loop (f := p.start .program) (step_charges (Level.stack_charged limit limit))

/-- No error names the kind that it found among those that it expected. -/
theorem apt_parseWithin (limit : Nat) (tokens : List Token) :
    ∀ e ∈ (parseWithin limit tokens).2, e.found ∉ e.expected :=
  (loop_charges limit (.ofTokens tokens)).apt fun e mem => by cases mem

/-- The errors are at most four for each item, whatever the limit. -/
theorem errors_parseWithin_le (limit : Nat) (tokens : List Token) :
    (parseWithin limit tokens).2.length ≤ 4 * (Items.ofTokens tokens).items.length := by
  have charged := (loop_charges limit (.ofTokens tokens)).debt
  have before : (Parser.ofTokens tokens).debt = 4 * (Items.ofTokens tokens).items.length := by
    simp [Parser.debt, Parser.ofTokens, Parser.remaining, Counted.ofList]
  have after : ((parseWithin limit tokens).2.length : Int) ≤
      (((Parser.ofTokens tokens).start .program).loop (step (.stack limit limit))).parser.debt := by
    rw [Parser.debt, ← Array.length_toList]
    exact Int.le_add_of_nonneg_right (by omega)
  omega

/-- **No flood of errors.** A stream has at most four errors for each of its tokens before its end,
comments aside, however it is nested. -/
theorem errors_parse_le (tokens : List Token) :
    (parse tokens).2.length ≤
      4 * ((tokens.takeWhile fun t => t.kind != .eof).filter fun t => !t.isTrivia).length := by
  have items : ((tokens.takeWhile fun t => t.kind != .eof).filter fun t => !t.isTrivia).length =
      (Items.ofTokens tokens).items.length := by
    rw [← List.length_map Item.token, Items.tokens_ofTokens]
    rfl
  rw [items]
  exact errors_parseWithin_le maxDepth tokens

/-- A `while` alone has all four where no nesting is followed. -/
example : (parseWithin 0 [⟨.kwWhile, "while", default⟩]).2.length = 4 := by decide +kernel

end Program

end JassSyntax
