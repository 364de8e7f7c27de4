import JassSyntax.Proofs.Limit.Levels
import JassSyntax.Proofs.Reading.Rounds
import JassSyntax.Proofs.Recovery.Courses

/-!
# Every construct takes its course

Each function of the grammar is a chain of the moves of a course, provided that the level inside it
reads by one and leaves off only where a body ends. The stack of levels is built from the bottom, so
all of its levels do.
-/

namespace JassSyntax

/-- What a level reads takes its course, and its bodies go on up to what ends them. -/
structure Level.Formed (inner : Level) : Prop where
  progresses : inner.Progresses
  forward : inner.Forward
  binding : ∀ power p, Forms .expression p (inner.binding power p).1 (inner.binding power p).2
  body : ∀ terminators f, (∀ k ∈ terminators, k.isClosingKeyword = true) →
    f.parser.openClosers ≠ [] →
    Fills f (inner.body terminators f) ∧ EndsBody terminators (inner.body terminators f)

variable {inner : Level} {s : Scope} {p : Parser} {f g : Frame}

/-- A node that takes a token of a known kind first. -/
theorem Gains.opened {kind : NodeKind} {role : Option Role} {k : Kind} (here : p.kind = k)
    (construct : kind.isConstruct = true) (outside : kind.Outside role) (plain : k ≠ .stringStart) :
    Gains kind (p.start kind) ((p.start kind).bump role) :=
  (Gains.refl _).take here construct outside plain

/-! ## Parts of blocks -/

namespace Frame

theorem kind_of_heading {kind : NodeKind} (heading : Gains kind (p.start kind).bump f) :
    f.kind = kind :=
  heading.grows.kind.trans (kind_bump _ _)

/-- A construct with a single body. -/
theorem closedBody_forms (formed : inner.Formed) {kind : NodeKind} {closer : Kind}
    (closes : kind.closer = some closer) (single : kind.awaits = [closer])
    (opens : kind.opening? = some p.kind) (within : kind.scope ≤ s)
    (heading : Gains kind (p.start kind).bump f) (named : kind = .functionDefinition → f.Named) :
    Forms s p (f.closedBody inner).finish.1 (f.closedBody inner).finish.2 := by
  have closers : f.kind.closer.toList = kind.awaits := by
    rw [kind_of_heading heading, closes, single]
    rfl
  have nonempty : (f.parser.enterBlock kind.awaits).openClosers ≠ [] :=
    enclosed_enterBlock (NodeKind.awaits_ne_nil closes) _
  obtain ⟨inside, ends⟩ := formed.body kind.awaits (f.entered kind.awaits)
    (NodeKind.awaits_closing kind) nonempty
  unfold closedBody
  rw [closers]
  refine .block kind closes opens within heading inside ?_ (.refl _) (fun _ => rfl) named
  have same : (inner.body kind.awaits (f.entered kind.awaits)).parser.openClosers =
      f.parser.openClosers ++ kind.awaits := inside.grows.later.openClosers
  have closing : ∀ k ∈ kind.awaits, some k = kind.closer := by simp [single, closes]
  rw [Level.EndsBody, same, List.mem_append] at ends
  rcases ends with eof | here | outer | here
  · exact .inr (.inl eof)
  · exact .inl (closing _ here)
  · exact .inr (.inr (.inl outer))
  · exact .inl (closing _ here)

theorem parameter_forms (here : p.kind = .identifier) :
    Forms .words p (parameter p).1 (parameter p).2 := by
  rcases parameter_cases p with ⟨typed, h⟩ | ⟨_, h⟩ <;> rw [h]
  · have name : ((p.start .parameter).bump (some .type)).current = .identifier := by
      rw [current_bump (f := p.start .parameter) fun eof => Kind.noConfusion (here.symm.trans eof)]
      exact typed
    exact .node .parameter rfl (by decide)
      ((Gains.opened here rfl (by decide) Kind.noConfusion).take name rfl (by decide)
        Kind.noConfusion)
  · exact .node .parameter rfl (by decide) (((Gains.refl _).second (g := p.start .parameter)).take
      (p.kind_second.trans here) rfl (by decide) Kind.noConfusion)

theorem parameterItems_gains (f : Frame) : Gains .parameters f f.parameterItems := by
  refine (Gains.refl f).loop fun g => ?_
  split
  · next here =>
    exact ((Gains.refl g).child (parameter_forms here) (by decide) (by decide)).eat rfl (by decide)
      Kind.noConfusion
  · exact .refl g

theorem parameterList_forms (p : Parser) :
    Forms .words p (parameterList p).1 (parameterList p).2 := by
  have opened : Gains .parameters (p.start .parameters)
      ((p.start .parameters).demand .lParen none (.unexpected .lParen)).1 :=
    (Gains.refl _).demand rfl (by decide) (by decide) Kind.noConfusion ParseErrorKind.noConfusion
  unfold parameterList
  dsimp only
  split
  · exact .node .parameters rfl (by decide) ((opened.trans (parameterItems_gains _)).expect rfl
      (by decide) (by decide) Kind.noConfusion)
  · exact .node .parameters rfl (by decide) opened

theorem parameters_gains {kind : NodeKind} (outside : kind.Outside (some .parameters)) (f : Frame) :
    Gains kind f f.parameters :=
  (Gains.refl f).child (parameterList_forms _) (Scope.words_le _) outside

end Frame

/-! ## Expressions -/

namespace Expression

theorem string_forms (here : p.kind = .stringStart) : Forms s p (string p).1 (string p).2 := by
  refine .string here (f := _) ?_ rfl
  refine Gains.expect ?_ rfl (by decide) (by decide) Kind.noConfusion
  have opened : Gains .string (p.start .string) ((p.start .string).bump (some .opening)) :=
    (Gains.refl _).bump rfl (by decide) fun _ => rfl
  split
  · next content => exact opened.take content rfl (by decide) Kind.noConfusion
  · exact opened

theorem tableKey_gains (formed : inner.Formed) (f : Frame) :
    Gains .field f (tableKey inner f).1 := by
  unfold tableKey
  split
  · next here =>
    exact ((((Gains.refl f).take here rfl (by decide) Kind.noConfusion).child
      (formed.binding _ _) (by decide) (by decide)).expect rfl (by decide) (by decide)
        Kind.noConfusion).expect rfl (by decide) (by decide) Kind.noConfusion
  · next here =>
    dsimp only
    split
    · next equals =>
      have name : f.second.2.current = .identifier := f.parser.kind_second.trans here
      have next : (f.second.2.bump (some .key)).current = .equals := by
        rw [Frame.current_bump (by rw [name]; exact Kind.noConfusion)]
        exact (f.parser.second_second).trans equals
      exact ((Gains.refl f).second.take name rfl (by decide) Kind.noConfusion).take next rfl
        (by decide) Kind.noConfusion
    · exact (Gains.refl f).second
  · exact .refl f

theorem tableStep_gains (formed : inner.Formed) (f : Frame) :
    Gains .tableConstructor f (tableStep inner f).1 := by
  unfold tableStep
  split
  · next separator =>
    exact (Gains.refl f).skip (Parser.misplaced_of_separator separator)
      ParseErrorKind.noConfusion (by decide)
  · dsimp only
    split
    · have value : Gains .field (f.parser.start .field)
          ((tableKey inner (f.parser.start .field)).1.child (some .value)
            (inner.binding (Power.assignment + 1))) :=
        (tableKey_gains formed _).child (formed.binding _ _) (by decide) (by decide)
      have field := (Gains.refl f).attach (.node .field rfl (Nat.le_refl _) value)
        (show NodeKind.field.scope ≤ NodeKind.tableConstructor.holds none by decide)
        (show NodeKind.tableConstructor.Outside none by decide)
      split
      · next separator =>
        rcases separator with here | here
        · exact field.take here rfl (by decide) Kind.noConfusion
        · exact field.take here rfl (by decide) Kind.noConfusion
      · exact field
    · next begins =>
      rw [tableKey_of_not_begins (by simpa using begins)]
      exact .refl f

theorem table_forms (formed : inner.Formed) (here : p.kind = .lBrace) :
    Forms .expression p (table inner p).1 (table inner p).2 :=
  .node .tableConstructor rfl (by decide)
    (((Gains.opened here rfl (by decide) Kind.noConfusion).loop (tableStep_gains formed)).expect rfl
      (by decide) (by decide) Kind.noConfusion)

theorem function_forms (formed : inner.Formed) (here : p.kind = .kwFunction) :
    Forms .expression p (function inner p).1 (function inner p).2 :=
  Frame.closedBody_forms formed rfl rfl (by rw [here]; rfl) (by decide)
    (Frame.parameters_gains (by decide) _) NodeKind.noConfusion

theorem parenthesized_forms (formed : inner.Formed) (here : p.kind = .lParen) :
    Forms .expression p (parenthesized inner p).1 (parenthesized inner p).2 :=
  .node .parenthesizedExpression rfl (by decide)
    (((Gains.opened here rfl (by decide) Kind.noConfusion).child (formed.binding _ _) (by decide)
      (by decide)).expect rfl (by decide) (by decide) Kind.noConfusion)

/-! ### Operands -/

theorem leaf_forms {k : Kind} (here : p.kind = k) (operand : k.isOperand = true) :
    Forms s p p.takeLeaf.1 p.takeLeaf.2 := by
  obtain ⟨item, head, kind⟩ := Parser.head_of_kind here (by rintro rfl; cases operand)
  exact .leaf head (kind ▸ operand)

theorem primary_forms (formed : inner.Formed) (p : Parser) :
    Forms .expression p (primary inner p).tree (primary inner p).parser := by
  unfold primary
  split
  · next h => exact leaf_forms h rfl
  · next h => exact leaf_forms h rfl
  · next h => exact leaf_forms h rfl
  · next h => exact string_forms h
  · next h => exact table_forms formed h
  · next h => exact parenthesized_forms formed h
  · next h => exact function_forms formed h
  · exact .absent ParseErrorKind.noConfusion

theorem arguments_forms (formed : inner.Formed) (starts : p.kind.startsArguments = true) :
    Forms .expression p (arguments inner p).1 (arguments inner p).2 := by
  unfold arguments
  split
  · next h => exact string_forms h
  · next h => exact table_forms formed h
  · next string table =>
    have here : p.kind = .lParen :=
      (Kind.startsArguments_cases starts).resolve_right (not_or.mpr ⟨string, table⟩)
    have opened : Gains .arguments (p.start .arguments) (p.start .arguments).bump :=
      Gains.opened here rfl (by decide) Kind.noConfusion
    refine .node .arguments rfl (by decide) (Gains.expect ?_ rfl (by decide) (by decide)
      Kind.noConfusion)
    split
    · exact opened
    · exact opened.commaSeparated rfl (by decide) fun g =>
        (Gains.refl g).child (formed.binding _ _) (by decide) (by decide)

theorem methodCall_gains (formed : inner.Formed) (here : f.current = .colon) :
    Gains .functionCall f (methodCall inner f) := by
  have named : Gains .functionCall f (f.bump.expectName .method) :=
    ((Gains.refl f).take here rfl (by decide) Kind.noConfusion).expectName rfl (by decide)
      (by decide)
  unfold methodCall
  dsimp only
  split
  · next starts => exact named.child (arguments_forms formed starts) (by decide) (by decide)
  · exact named.repair ParseErrorKind.noConfusion (by decide)

/-- A node around an operand that has been read. -/
theorem base_forms {e : Operand} (kind : NodeKind) (read : Forms .expression p e.tree e.parser)
    (fits : kind.isSimple = true ∧ kind.scope ≤ .expression ∧
      .expression ≤ kind.holds (some .base) ∧ kind.Outside (some .base))
    (gained : Gains kind (e.base kind) f) (extensible : Bool) :
    Forms .expression p (Operand.ofFrame f extensible).tree
      (Operand.ofFrame f extensible).parser :=
  .around kind fits.1 fits.2.1 read fits.2.2.1 fits.2.2.2 gained

theorem update_forms {e : Operand} {k : Kind} (read : Forms .expression p e.tree e.parser)
    (here : e.parser.kind = k) (plain : k ≠ .stringStart) :
    let f := ((e.parser.start .updateExpression).attach (some .operand) e.tree).bump
      (some .operator)
    Forms .expression p f.finish.1 f.finish.2 :=
  .around .updateExpression rfl (by decide) read (by decide) (by decide)
    ((Gains.refl ((e.parser.start .updateExpression).attach (some .operand) e.tree)).take here rfl
      (by decide) plain)

theorem extend_forms (formed : inner.Formed) {e : Operand}
    (read : Forms .expression p e.tree e.parser) :
    Forms .expression p (extend inner e).1.tree (extend inner e).1.parser := by
  unfold extend
  split
  · next here _ =>
    refine base_forms .memberExpression read (by decide) (.expectName ?_ rfl (by decide)
      (by decide)) true
    exact (Gains.refl (e.base .memberExpression)).take here rfl (by decide) Kind.noConfusion
  · next here _ =>
    refine base_forms .indexExpression read (by decide) (.expect (.child ?_ (formed.binding _ _)
      (by decide) (by decide)) rfl (by decide) (by decide) Kind.noConfusion) true
    exact (Gains.refl (e.base .indexExpression)).take here rfl (by decide) Kind.noConfusion
  · next here _ =>
    exact base_forms .functionCall read (by decide) (methodCall_gains formed here) true
  · next here => exact update_forms read here Kind.noConfusion
  · next here => exact update_forms read here Kind.noConfusion
  · split
    · next starts =>
      have called : Gains .functionCall (e.base .functionCall)
          ((e.base .functionCall).child (some .args) (arguments inner)) :=
        (Gains.refl _).attach (arguments_forms (p := (e.base .functionCall).parser) formed starts)
          (by decide) (by decide)
      exact base_forms .functionCall read (by decide) called true
    · exact read
  · exact read

theorem extended_forms (formed : inner.Formed) {e : Operand}
    (read : Forms .expression p e.tree e.parser) :
    Forms .expression p (extended inner e).1 (extended inner e).2 :=
  Loop.run_related
    (R := fun a b : Operand => Forms .expression p a.tree a.parser →
      Forms .expression p b.tree b.parser)
    (fun first second h => second (first h)) (fun _ h => extend_forms formed h) e read

theorem operandFrom_forms (formed : inner.Formed) {first : Parser → Operand}
    (forms : ∀ p, Forms .expression p (first p).tree (first p).parser) (p : Parser) :
    Forms .expression p (operandFrom inner first p).1 (operandFrom inner first p).2 := by
  unfold operandFrom
  split
  · next unary =>
    have opened : Gains .unaryExpression (p.start .unaryExpression)
        ((p.start .unaryExpression).bump (some .operator)) :=
      (Gains.refl _).bump rfl (by decide) fun quote => by
        rw [show p.kind = .stringStart from quote] at unary
        cases unary
    exact .node .unaryExpression rfl (by decide)
      (opened.child (formed.binding _ _) (by decide) (by decide))
  · exact extended_forms formed (forms p)

theorem primaryOrStray_forms (formed : inner.Formed) (p : Parser) :
    Forms .expression p (primaryOrStray inner p).tree (primaryOrStray inner p).parser := by
  unfold primaryOrStray
  dsimp only
  split
  · next stray =>
    refine .stray (c := .noExpression) (Parser.misplaced_of_isStray stray.1)
      ParseErrorKind.noConfusion (by decide) ?_
    split
    · exact (Gains.refl _).child (operandFrom_forms formed (primary_forms formed) _) (by decide)
        (by decide)
    · exact .refl _
  · exact primary_forms formed p

/-! ### Operators -/

theorem listStep_gains (formed : inner.Formed) (f : Frame) :
    Gains .expressionList f (listStep inner f).1 := by
  unfold listStep
  split
  · next here =>
    exact ((Gains.refl f).take here rfl (by decide) Kind.noConfusion).child (formed.binding _ _)
      (by decide) (by decide)
  · exact .refl f

theorem operation_fits {kind : NodeKind}
    (operation : kind = .assignmentExpression ∨ kind = .binaryExpression) :
    kind.isSimple = true ∧ kind.scope ≤ .expression ∧ (∀ role, .expression ≤ kind.holds role) ∧
      kind.isConstruct = true ∧ ∀ role : Role, role = .left ∨ role = .operator ∨ role = .right →
        kind.Outside (some role) := by
  rcases operation with rfl | rfl <;> refine ⟨rfl, by decide, fun _ => Nat.le_refl _, rfl, ?_⟩ <;>
    rintro role (rfl | rfl | rfl) <;> decide

theorem join_forms (formed : inner.Formed) (power : Nat) {e : Tree × Parser}
    (read : Forms .expression p e.1 e.2) :
    Forms .expression p (join inner power e).1.1 (join inner power e).1.2 := by
  rcases join_cases inner power e with ⟨_, h⟩ | ⟨own, side, op, _, ⟨_, h⟩ | ⟨_, h⟩⟩ <;> rw [h]
  · exact read
  · rw [list_eq]
    exact .around .expressionList rfl (by decide) read (by decide) (by decide)
      ((Gains.refl _).loop (listStep_gains formed))
  · have plain : e.2.kind ≠ .stringStart := fun quote => by
      rw [quote] at op
      cases op
    obtain ⟨simple, within, held, construct, outside⟩ := operation_fits
      (ite_eq_or_eq (e.2.kind = .equals) NodeKind.assignmentExpression .binaryExpression)
    refine .around _ simple within read (held _) (outside .left (.inl rfl)) (.child ?_
      (formed.binding _ _) (held _) (outside .right (.inr (.inr rfl))))
    exact (Gains.refl _).take rfl construct (outside .operator (.inr (.inl rfl))) plain

theorem binding_forms (formed : inner.Formed) (power : Nat) (p : Parser) :
    Forms .expression p (binding inner power p).1 (binding inner power p).2 :=
  Loop.run_related
    (R := fun a b : Tree × Parser => Forms .expression p a.1 a.2 → Forms .expression p b.1 b.2)
    (fun first second h => second (first h)) (fun _ h => join_forms formed power h) _
    (operandFrom_forms formed (primaryOrStray_forms formed) p)

end Expression

/-! ## Statements -/

namespace Statement

theorem simpleBlock_forms (formed : inner.Formed) {kind : NodeKind} {closer : Kind}
    (closes : kind.closer = some closer) (single : kind.awaits = [closer])
    (opens : kind.opening? = some p.kind) (nameless : kind ≠ .functionDefinition) :
    Forms .statement p (simpleBlock inner kind p).1 (simpleBlock inner kind p).2 :=
  Frame.closedBody_forms formed closes single opens (Scope.le_statement _) (.refl _)
    fun same => absurd same nameless

theorem struct_forms (formed : inner.Formed) (here : p.kind = .kwStruct) :
    Forms .statement p (struct inner p).1 (struct inner p).2 :=
  Frame.closedBody_forms formed rfl rfl (by rw [here]; rfl) (by decide)
    ((Gains.refl _).expectName rfl (by decide) (by decide)) NodeKind.noConfusion

theorem whileLoop_forms (formed : inner.Formed) (here : p.kind = .kwWhile) :
    Forms .statement p (whileLoop inner p).1 (whileLoop inner p).2 :=
  Frame.closedBody_forms formed rfl rfl (by rw [here]; rfl) (by decide)
    (((Gains.refl _).child (formed.binding _ _) (by decide) (by decide)).expect rfl (by decide)
      (by decide) Kind.noConfusion) NodeKind.noConfusion

theorem repeatLoop_forms (formed : inner.Formed) (here : p.kind = .kwRepeat) :
    Forms .statement p (repeatLoop inner p).1 (repeatLoop inner p).2 := by
  let f := (p.start .repeatStatement).bump
  have nonempty : [Kind.kwUntil] ≠ [] := List.cons_ne_nil _ _
  obtain ⟨inside, ends⟩ := formed.body [.kwUntil] (f.entered [.kwUntil]) (by decide)
    (Frame.enclosed_enterBlock nonempty _)
  have same : (inner.body [.kwUntil] (f.entered [.kwUntil])).parser.openClosers =
      f.parser.openClosers ++ [.kwUntil] := inside.grows.later.openClosers
  rw [Level.EndsBody, same, List.mem_append, List.mem_singleton] at ends
  have closed : ∀ h : Frame, Gains .repeatStatement h
      (if (f.within [.kwUntil] (inner.body [.kwUntil])).current = .kwUntil then
        h.child (some .condition) inner.expression else h) := by
    intro h
    split
    · exact (Gains.refl h).child (formed.binding _ _) (by decide) (by decide)
    · exact .refl h
  refine .block .repeatStatement rfl (by rw [here]; rfl) (by decide) (.refl f) inside ?_
    (closed _) (fun other => if_neg other) NodeKind.noConfusion
  rcases ends with eof | here | outer | here
  · exact .inr (.inl eof)
  · exact .inl (congrArg some here)
  · exact .inr (.inr (.inl outer))
  · exact .inl (congrArg some here)

/-! ### Branches -/

theorem branch_gains (formed : inner.Formed) {kind : NodeKind} (construct : kind.isConstruct = true)
    (held : Scope.expression ≤ kind.holds (some .condition))
    (outside : kind.Outside none ∧ kind.Outside (some .condition)) (f : Frame) :
    Gains kind f.bump (branch inner f) :=
  ((Gains.refl _).child (formed.binding _ _) held outside.2).expect construct outside.1 outside.1
    Kind.noConfusion

theorem elseifClause_forms (formed : inner.Formed) (here : p.kind = .kwElseIf)
    (enclosed : p.openClosers ≠ []) :
    Forms .statement p (elseifClause inner p).1 (elseifClause inner p).2 ∧
      (elseifClause inner p).1.nodeKind? = some .elseifClause ∧
      Level.EndsBody branchEnds (inner.body branchEnds (branch inner (p.start .elseifClause))) := by
  have headed :
      Gains .elseifClause (p.start .elseifClause) (branch inner (p.start .elseifClause)) :=
    (Gains.opened here rfl (by decide) Kind.noConfusion).trans
      (branch_gains formed rfl (by decide) (by decide) _)
  have same : (branch inner (p.start .elseifClause)).parser.openClosers = p.openClosers :=
    headed.grows.later.openClosers
  obtain ⟨inside, ends⟩ := formed.body branchEnds (branch inner (p.start .elseifClause))
    branchEnds_closing (same ▸ enclosed)
  exact ⟨.clause .elseifClause rfl headed inside,
    congrArg some (headed.grows.trans inside.grows).kind, ends⟩

theorem elseClause_forms (formed : inner.Formed) (here : p.kind = .kwElse)
    (enclosed : p.openClosers ≠ []) :
    Forms .statement p (elseClause inner p).1 (elseClause inner p).2 ∧
      (elseClause inner p).1.nodeKind? = some .elseClause ∧
      Level.EndsBody [.kwEnd] (inner.body [.kwEnd] (p.start .elseClause).bump) := by
  have headed : Gains .elseClause (p.start .elseClause) (p.start .elseClause).bump :=
    Gains.opened here rfl (by decide) Kind.noConfusion
  have same : (p.start .elseClause).bump.parser.openClosers = p.openClosers :=
    headed.grows.later.openClosers
  obtain ⟨inside, ends⟩ := formed.body [.kwEnd] (p.start .elseClause).bump (by decide)
    (same ▸ enclosed)
  exact ⟨.clause .elseClause rfl headed inside,
    congrArg some (headed.grows.trans inside.grows).kind, ends⟩

/-- What bodies end at stays the same around the branches of a conditional. -/
theorem clauses_fill (formed : inner.Formed) {f : Frame} (enclosed : f.parser.openClosers ≠ []) :
    let g := (inner.body branchEnds f).loop (clauseStep inner)
    Fills f g ∧ Level.EndsBody branchEnds g ∧ g.current ≠ .kwElseIf := by
  obtain ⟨first, ends⟩ := formed.body branchEnds f branchEnds_closing enclosed
  have traced := formed.progresses.traced
  refine Loop.run_rule
    (P := fun g : Frame => Fills f g ∧ Level.EndsBody branchEnds g)
    (Q := fun g : Frame => Fills f g ∧ Level.EndsBody branchEnds g ∧ g.current ≠ .kwElseIf)
    ?_ ?_ ?_ ⟨first, ends⟩
  · rintro g ⟨filled, _⟩ goes
    unfold clauseStep at goes ⊢
    split at goes
    · next here =>
      rw [if_pos here]
      obtain ⟨read, node, ends⟩ := elseifClause_forms formed here
        (filled.grows.later.openClosers ▸ enclosed)
      exact ⟨filled.clause read node rfl, ends⟩
    · cases goes
  · rintro g ⟨filled, ends⟩ stop
    unfold clauseStep at stop ⊢
    split at stop
    · cases stop
    · next other =>
      rw [if_neg other]
      exact ⟨filled, ends, other⟩
  · rintro g _ goes stalls
    exact absurd stalls
      (Nat.not_le_of_lt ((clauseStep_finishes traced formed.forward).consumes g goes))

/-- Behind the branches of a conditional stands what closes it or a construct around it, unless the
last branch has been read and another one seems to begin. -/
theorem branches_fill (formed : inner.Formed) {f : Frame} {outer : List Kind}
    (enclosed : f.parser.openClosers = outer ++ branchEnds) :
    Fills f (branches inner f) ∧ (branches inner f).Stops .ifStatement outer := by
  have nonempty : f.parser.openClosers ≠ [] := by simp [enclosed, branchEnds]
  obtain ⟨filled, ends, other⟩ := clauses_fill formed nonempty
  rw [branches_eq]
  dsimp only
  generalize (inner.body branchEnds f).loop (clauseStep inner) = g at filled ends other ⊢
  have same : g.parser.openClosers = outer ++ branchEnds :=
    filled.grows.later.openClosers.trans enclosed
  split
  · next here =>
    obtain ⟨read, node, ends⟩ :=
      elseClause_forms (p := g.parser) formed here (by simp [same, branchEnds])
    refine ⟨filled.clause read node rfl, ?_⟩
    have last : (g.child (some .alternative) (elseClause inner)).parser.openClosers =
        outer ++ branchEnds := read.reads.later.openClosers.trans same
    have clause : ∃ c ∈ (g.child (some .alternative) (elseClause inner)).children.toList,
        c.nodeKind? = some .elseClause := by
      refine ⟨(elseClause inner g.parser).1.withRole (some .alternative), ?_, ?_⟩
      · rw [Frame.child, Frame.children_attach]
        exact List.mem_append_right _ List.mem_cons_self
      · rw [Tree.nodeKind?_withRole, node]
    rw [Level.EndsBody] at ends
    change (g.child (some .alternative) (elseClause inner)).current = .eof ∨
      (g.child (some .alternative) (elseClause inner)).current ∈ [Kind.kwEnd] ∨
      (g.child (some .alternative) (elseClause inner)).current ∈
        (g.child (some .alternative) (elseClause inner)).parser.openClosers at ends
    rw [last, List.mem_append] at ends
    have closing : ∀ k ∈ branchEnds, some k = NodeKind.ifStatement.closer ∨
        (k = .kwElseIf ∨ k = .kwElse) := by decide
    rcases ends with eof | here | outer | here
    · exact .inr (.inl eof)
    · exact .inl (congrArg some (List.mem_singleton.mp here))
    · exact .inr (.inr (.inl outer))
    · exact (closing _ here).imp_right fun again => .inr (.inr ⟨rfl, again, clause⟩)
  · next plain =>
    refine ⟨filled, ?_⟩
    rw [Level.EndsBody, same, List.mem_append] at ends
    have closing : ∀ k ∈ branchEnds, k ≠ .kwElseIf → k ≠ .kwElse →
        some k = NodeKind.ifStatement.closer := by decide
    rcases ends with eof | here | outer | here
    · exact .inr (.inl eof)
    · exact .inl (closing _ here other plain)
    · exact .inr (.inr (.inl outer))
    · exact .inl (closing _ here other plain)

theorem conditional_forms (formed : inner.Formed) (here : p.kind = .kwIf) :
    Forms .statement p (conditional inner p).1 (conditional inner p).2 := by
  let f := branch inner (p.start .ifStatement)
  have entered : (f.entered branchEnds).parser.openClosers =
      f.parser.openClosers ++ branchEnds := rfl
  obtain ⟨inside, stops⟩ := branches_fill formed entered
  exact .block .ifStatement rfl (by rw [here]; rfl) (by decide)
    (branch_gains formed rfl (by decide) (by decide) _) inside stops (.refl _)
    (fun _ => rfl) NodeKind.noConfusion

/-! ### Functions -/

theorem memberStep_gains (f : Frame) : Gains .functionName f (memberStep f).1 := by
  unfold memberStep
  split
  · next here =>
    exact ((Gains.refl f).take here rfl (by decide) Kind.noConfusion).expectName rfl (by decide)
      (by decide)
  · exact .refl f

theorem qualifiers_gains (f : Frame) : Gains .functionName f (qualifiers f) := by
  have members : Gains .functionName f (f.loop memberStep) := (Gains.refl f).loop memberStep_gains
  rw [qualifiers_eq]
  dsimp only
  split
  · next here =>
    exact (members.take here rfl (by decide) Kind.noConfusion).expectName rfl (by decide)
      (by decide)
  · exact members

theorem functionName_gains (name : f.current = .identifier) :
    Gains .functionDefinition f (functionName f) := by
  rcases functionName_cases f with ⟨_, h⟩ | ⟨_, h⟩ <;> rw [h]
  · have qualified : Forms .words f.parser (qualifiedName f.parser).1 (qualifiedName f.parser).2 :=
      .node .functionName rfl (by decide)
        ((Gains.opened name rfl (by decide) Kind.noConfusion).trans (qualifiers_gains _))
    exact (Gains.refl f).child qualified (by decide) (by decide)
  · exact (Gains.refl f).second.expectName rfl (by decide) (by decide)

/-- A name that begins with an identifier is there. -/
theorem named_functionName (name : f.current = .identifier) : (functionName f).Named := by
  rcases functionName_cases f with ⟨_, h⟩ | ⟨_, h⟩ <;> rw [h]
  · refine ⟨(qualifiedName f.parser).1.withRole (some .name), ?_, Tree.role_withRole _ _, rfl⟩
    rw [Frame.child, Frame.children_attach]
    exact List.mem_append_right _ List.mem_cons_self
  · have here : ({ f with parser := f.parser.second.2 } : Frame).current = .identifier :=
      f.parser.kind_second.trans name
    obtain ⟨item, head, -⟩ := Parser.head_of_kind here (by decide)
    refine ⟨.token (some .name) item.token, ?_, rfl, rfl⟩
    rw [Frame.expectName, Frame.demand, if_pos here, Frame.children_bump head]
    exact List.mem_append_right _ List.mem_cons_self

theorem functionDefinition_forms (formed : inner.Formed) (here : p.kind = .kwFunction)
    (name : p.second.1 = .identifier) :
    Forms .statement p (functionDefinition inner p).1 (functionDefinition inner p).2 := by
  have current : (p.start .functionDefinition).bump.current = .identifier := by
    rw [Frame.current_bump (f := p.start .functionDefinition) fun eof =>
      Kind.noConfusion (here.symm.trans eof)]
    exact name
  have parameters : Gains .functionDefinition _
      (functionName (p.start .functionDefinition).bump).parameters :=
    Frame.parameters_gains (by decide) _
  have named := named_functionName current
  exact Frame.closedBody_forms formed rfl rfl (by rw [here]; rfl) (by decide)
    ((functionName_gains current).trans parameters)
    fun _ => named.of_prefix parameters.grows.children

/-! ### Declarations -/

theorem declarator_forms (formed : inner.Formed) (p : Parser) :
    Forms .statement p (declarator inner p).1 (declarator inner p).2 := by
  have named : Gains .declarator (p.start .declarator) ((p.start .declarator).expectName .name) :=
    (Gains.refl _).expectName rfl (by decide) (by decide)
  rcases declarator_cases inner p with ⟨here, h⟩ | ⟨_, h⟩ <;> rw [h]
  · have assigned : Gains .declarator (p.start .declarator)
        ((p.start .declarator).expectName .name).bump :=
      named.take here rfl (by decide) Kind.noConfusion
    exact .node .declarator rfl (by decide)
      (assigned.child (formed.binding _ _) (by decide) (by decide))
  · exact .node .declarator rfl (by decide) named

theorem declaredType_gains (modified : Bool) (f : Frame) :
    Gains .variableDeclaration f (declaredType modified f) := by
  rcases declaredType_cases modified f with ⟨⟨name, _⟩, h⟩ | ⟨q, looked, ⟨_, h⟩ | h⟩ <;> rw [h]
  · exact ((Gains.refl f).take name rfl (by decide) Kind.noConfusion).bumpWhile rfl (by decide)
      (by decide)
  · exact (Gains.refl f).looking looked
  · exact ((Gains.refl f).looking looked).expectName rfl (by decide) (by decide)

theorem declaration_forms (formed : inner.Formed) (p : Parser) :
    Forms .statement p (declaration inner p).1 (declaration inner p).2 := by
  have typed : Gains .variableDeclaration (p.start .variableDeclaration)
      (declaredType p.kind.isModifier
        ((p.start .variableDeclaration).bumpWhile (some .modifier) Kind.isModifier)) :=
    ((Gains.refl _).bumpWhile rfl (by decide) (by decide)).trans (declaredType_gains _ _)
  exact .node .variableDeclaration rfl (by decide) (typed.commaSeparated rfl (by decide) fun g =>
    (Gains.refl g).child (declarator_forms formed _) (by decide) (by decide))

/-! ### All statements -/

theorem single_forms {kind : NodeKind} {k : Kind} (simple : kind.isSimple = true)
    (outside : kind.Outside none) (here : p.kind = k) (plain : k ≠ .stringStart) :
    Forms .statement p (single kind p).1 (single kind p).2 :=
  .node kind simple (Scope.le_statement _)
    (Gains.opened here (NodeKind.isConstruct_of_isSimple simple) outside plain)

theorem returnStatement_forms (formed : inner.Formed) (here : p.kind = .kwReturn) :
    Forms .statement p (returnStatement inner p).1 (returnStatement inner p).2 := by
  have opened : Gains .returnStatement (p.start .returnStatement) (p.start .returnStatement).bump :=
    Gains.opened here rfl (by decide) Kind.noConfusion
  refine .node .returnStatement rfl (by decide) ?_
  split
  · exact opened.commaSeparated rfl (by decide) fun g =>
      (Gains.refl g).child (formed.binding _ _) (by decide) (by decide)
  · exact opened

theorem expression_forms (formed : inner.Formed) (p : Parser) :
    Forms .statement p (expression inner p).1 (expression inner p).2 :=
  .node .expressionStatement rfl (by decide)
    ((Gains.refl _).child (formed.binding _ _) (by decide) (by decide))

/-- A look at the second token before a tree is read does not change its course. -/
theorem forms_second {t : Tree} {q : Parser} (read : Forms s p.second.2 t q) : Forms s p t q := by
  rcases p.second_looked with h | h <;> rw [h] at read
  · exact read
  · exact .noticing read

theorem statement_forms (formed : inner.Formed) (p : Parser) :
    Forms .statement p (statement inner p).1 (statement inner p).2 := by
  unfold statement
  split
  · exact declaration_forms formed p
  · exact declaration_forms formed p
  · exact declaration_forms formed p
  · dsimp only
    split
    · exact forms_second (declaration_forms formed _)
    · exact forms_second (expression_forms formed _)
  · next here => exact simpleBlock_forms formed rfl rfl (by rw [here]; rfl) NodeKind.noConfusion
  · next here => exact struct_forms formed here
  · next here => exact simpleBlock_forms formed rfl rfl (by rw [here]; rfl) NodeKind.noConfusion
  · next here => exact simpleBlock_forms formed rfl rfl (by rw [here]; rfl) NodeKind.noConfusion
  · next here => exact whileLoop_forms formed here
  · next here => exact repeatLoop_forms formed here
  · next here => exact conditional_forms formed here
  · next here =>
    dsimp only
    split
    · next name =>
      exact forms_second (functionDefinition_forms formed (p.kind_second.trans here)
        (p.second_second.trans name))
    · exact forms_second (expression_forms formed _)
  · next here => exact returnStatement_forms formed here
  · next here => exact single_forms rfl (by decide) here Kind.noConfusion
  · next here => exact single_forms rfl (by decide) here Kind.noConfusion
  · exact expression_forms formed p

/-! ### Bodies -/

theorem bodyStep_gains (formed : inner.Formed) (construct : NodeKind) (terminators : List Kind)
    (f : Frame) : Gains .block f (bodyStep inner construct terminators f).1 := by
  rw [bodyStep_eq]
  split
  · exact .refl f
  · next inside =>
    split
    · exact (Gains.refl f).child (statement_forms formed _) (by decide) (by decide)
    · next unfit =>
      have other : (misfit construct terminators f.current).sort ≠ .missingCloser := by
        unfold misfit
        split <;> exact ParseErrorKind.noConfusion
      exact (Gains.refl f).attach (.aside (fun eof => inside (.inl eof))
        ((Bool.not_eq_true _).mp unfit) (fun awaited => inside (.inr (.inr awaited))) other)
        (by decide) (by decide)

theorem body_fills (formed : inner.Formed) (terminators : List Kind) (f : Frame) :
    Fills f (body inner terminators f) ∧ Level.EndsBody terminators (body inner terminators f) := by
  rw [body_eq formed.progresses.traced]
  split
  · next ends => exact ⟨.refl f, ends⟩
  · have read : Forms .statement f.parser (block inner f.kind terminators f.parser).1
        (block inner f.kind terminators f.parser).2 :=
      .node .block rfl (by decide) ((Gains.refl _).loop (bodyStep_gains formed _ _))
    exact ⟨(Fills.refl f).body read (nodeKind_block formed.progresses.traced _ _ _),
      block_ends formed.progresses f.kind (f.parser.start .block)⟩

end Statement

/-! ## Levels -/

namespace Level

/-- Behind a region of a body stands what ends it. -/
theorem drop_regionLength {stop : Kind → Bool} (balance : Nat) (items : List Item) :
    ∀ item, (items.drop (regionLength (.upTo stop) balance items)).head? = some item →
      stop item.token.kind = true := by
  induction items generalizing balance with
  | nil => intro item head; cases head
  | cons next items ih =>
      intro item head
      rw [regionLength] at head
      dsimp only at head
      split at head
      · next ends =>
        cases head
        exact ends.2
      · split at head
        · next ends => cases ends.2
        · rw [Nat.add_comm, List.drop_succ_cons] at head
          exact ih _ item head

theorem endsBody_of_region {terminators : List Kind} {limit n : Nat}
    (length : regionLength
      (.upTo fun k => terminators.contains k || f.parser.closesOpenBlock k) 0
        f.parser.ahead.toList = n + 1) :
    EndsBody terminators (((complainTooDeep limit f.parser).start .error).bumps (n + 1)) := by
  let g := ((complainTooDeep limit f.parser).start .error).bumps (n + 1)
  have closers : g.parser.openClosers = f.parser.openClosers :=
    (Parser.Later.bumps (f := (complainTooDeep limit f.parser).start .error)
      (f.parser.later_complainTooDeep limit)).openClosers
  have ahead : g.parser.ahead.toList = f.parser.ahead.toList.drop (n + 1) := by
    rw [Frame.ahead_bumps]
    exact congrArg _ (congrArg Counted.toList (complainTooDeep_ahead limit f.parser))
  rw [EndsBody, closers]
  cases head : g.parser.ahead.head? with
  | none =>
      refine .inl ?_
      rw [Frame.current, Parser.kind, head]
  | some item =>
      have current : g.current = item.token.kind := by rw [Frame.current, Parser.kind, head]
      have stop := drop_regionLength 0 f.parser.ahead.toList item
        (by rw [length, ← ahead]; exact head)
      simp only [Parser.closesOpenBlock, Bool.or_eq_true, List.contains_iff_mem] at stop
      exact .inr (current ▸ stop)

theorem cutOff_formed (limit : Nat) : (cutOff limit).Formed where
  progresses := cutOff_progresses limit
  forward := cutOff_forward limit
  binding power p := by
    rcases cutOff_binding_cases limit power p with ⟨_, h⟩ | ⟨n, region, h⟩ <;> rw [h]
    · exact .absentTooDeep limit
    · exact .tooDeep limit .operand region
  body terminators f closing enclosed := by
    let extent := Extent.upTo fun k => terminators.contains k || f.parser.closesOpenBlock k
    unfold cutOff
    dsimp only
    rcases skipTooDeep_cases limit extent f.parser with ⟨empty, h⟩ | ⟨n, length, h⟩ <;> rw [h]
    · have ends := endsBody_of_regionLength empty
      refine ⟨(Fills.refl f).tooDeep limit enclosed (ends.imp_right (Or.imp_left (closing _))), ?_⟩
      rcases complainTooDeep_cases limit f.parser with e | e <;> rw [e] <;> exact ends
    · have region := Forms.tooDeep (s := .statement) limit (.body closing) length
      refine ⟨(Fills.refl f).body (.around .block rfl (by decide) region (by decide) (by decide)
        (.refl _)) rfl, ?_⟩
      exact endsBody_of_region length

theorem above_formed (limit : Nat) (formed : inner.Formed) : (inner.above limit).Formed where
  progresses := above_progresses limit formed.progresses
  forward terminators f := by
    rcases above_body_cases limit inner terminators f with ⟨_, h⟩ | ⟨_, h⟩ <;> rw [h]
    · exact cutOff_forward limit terminators f
    · exact ((Grows.refl f).nested
        (Statement.body_grows formed.progresses.traced terminators _)).later
  binding power p := by
    rcases above_binding_cases limit inner power p with ⟨_, h⟩ | ⟨_, h⟩ <;> rw [h]
    · exact (cutOff_formed limit).binding power p
    · exact .nested (Expression.binding_forms formed power _)
  body terminators f closing enclosed := by
    rcases above_body_cases limit inner terminators f with ⟨_, h⟩ | ⟨_, h⟩ <;> rw [h]
    · exact (cutOff_formed limit).body terminators f closing enclosed
    · obtain ⟨filled, ends⟩ := Statement.body_fills formed terminators
        { f with parser := { f.parser with depth := f.parser.depth + 1 } }
      exact ⟨(Fills.refl f).nested filled, ends⟩

theorem stack_formed (limit room : Nat) : (stack limit room).Formed := by
  induction room with
  | zero => exact cutOff_formed limit
  | succ room ih => exact above_formed limit ih

end Level

/-! ## Programs -/

namespace Program

theorem step_gains (formed : inner.Formed) (enclosed : f.parser.openClosers = []) :
    Gains .program f (step inner f).1 := by
  unfold step
  dsimp only
  split
  · exact .refl f
  · next here =>
    split
    · exact (Gains.refl f).child (Statement.statement_forms formed _) (by decide) (by decide)
    · next unfit =>
      have unawaited : f.parser.kind ∉ f.parser.openClosers := by simp [enclosed]
      exact (Gains.refl f).attach (.aside here ((Bool.not_eq_true _).mp unfit) unawaited
        ParseErrorKind.noConfusion) (by decide) (by decide)

/-- A program is read by a course. -/
theorem loop_gains (limit : Nat) (tokens : List Token) :
    Gains .program ((Parser.ofTokens tokens).start .program)
      (((Parser.ofTokens tokens).start .program).loop (step (.stack limit limit))) :=
  Frame.loop_keeps (I := Gains .program ((Parser.ofTokens tokens).start .program))
    (fun _ before => before.trans (step_gains (Level.stack_formed limit limit)
      before.grows.later.openClosers)) (.refl _)

end Program

end JassSyntax
