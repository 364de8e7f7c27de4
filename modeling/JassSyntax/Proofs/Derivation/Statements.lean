import JassSyntax.Proofs.Derivation.Expressions

/-!
# Statements and programs are derivations

Each function that reads a statement builds the production of the node that it makes, provided that
the level inside it does. The stack of levels is built from the bottom, so every level is sound.
-/

namespace JassSyntax

open Computability Production

variable {m : Tolerance} {inner : Level} {p : Parser}

namespace Frame.Builds

variable {k : NodeKind} {L : Language Tree} {f : Frame}

/-- A body, with the kinds that end it. -/
theorem body (h : f.Builds m k L) (sound : inner.Sound m) {closers : List Kind}
    (nonempty : closers ≠ []) (terminators : List Kind) :
    (f.within closers (inner.body terminators)).Builds m k (L * Production.body) :=
  h.within nonempty fun _ _ built => sound.body terminators built

end Frame.Builds

namespace Statement

open JassSyntax.Frame

/-! ## Blocks -/

theorem simpleBlock_yields (sound : inner.Sound m) {k : NodeKind} {opener closer : Kind}
    (here : p.kind = opener) (closes : k.closer = some closer) (opens : opener ≠ .eof)
    (ends : closer ≠ .eof)
    (derived : production m k = token opener * Production.body * closing m closer) :
    Yields m (fun t => t.nodeKind? = some k) p (simpleBlock inner k p) := by
  refine .node (simpleBlock_begins sound.progresses.traced closes p).reads ?_
  intro tidy
  rw [derived]
  exact (Builds.opened tidy k here opens none).closedBody sound closes ends

theorem struct_yields (sound : inner.Sound m) (here : p.kind = .kwStruct) :
    Yields m (fun t => t.nodeKind? = some .structDefinition) p (struct inner p) := by
  refine .node (struct_begins sound.progresses.traced p).reads ?_
  intro tidy
  have opened := Builds.opened (m := m) tidy .structDefinition here (by decide) none
  exact (opened.expectName .name).closedBody sound rfl (by decide)

theorem whileLoop_yields (sound : inner.Sound m) (here : p.kind = .kwWhile) :
    Yields m (fun t => t.nodeKind? = some .whileStatement) p (whileLoop inner p) := by
  refine .node (whileLoop_begins sound.progresses.traced p).reads ?_
  intro tidy
  have opened := Builds.opened (m := m) tidy .whileStatement here (by decide) none
  have conditioned := opened.operand sound Power.assignment (some .condition)
  exact (conditioned.expect (by decide) none).closedBody sound rfl (by decide)

theorem repeatLoop_yields (sound : inner.Sound m) (here : p.kind = .kwRepeat) :
    Yields m (fun t => t.nodeKind? = some .repeatStatement) p (repeatLoop inner p) := by
  refine .node (repeatLoop_begins sound.progresses.traced p).reads ?_
  intro tidy
  have filled := (Builds.opened (m := m) tidy .repeatStatement here (by decide) none).body sound
    (List.cons_ne_nil .kwUntil []) [.kwUntil]
  have closes : ((p.start .repeatStatement).bump.within [.kwUntil]
      (inner.body [.kwUntil])).kind.closer = some .kwUntil := by
    rw [filled.kind]
    rfl
  -- The condition is read only behind a closer that is there.
  rcases Frame.close_cases closes with ⟨here, e⟩ | ⟨absent, span, e⟩
  · rw [if_pos here, e]
    have closed := (filled.bump here (by decide) (some .closing)).operand sound Power.assignment
      (some .condition)
    rw [mul_assoc] at closed
    exact closed.left
  · rw [if_neg absent, e]
    exact (filled.repair span _ _ _).right

/-! ## Branches -/

theorem branch_builds (sound : inner.Sound m) {k : NodeKind} {keyword : Kind}
    (here : p.kind = keyword) (begins : keyword ≠ .eof) (tidy : p.Tidy) :
    (branch inner (p.start k)).Builds m k
      (token keyword * Production.expression m Power.assignment (some .condition) *
        wanted m .kwThen) := by
  have opened := Builds.opened (m := m) tidy k here begins none
  exact (opened.operand sound _ _).expect (by decide) none

theorem elseifClause_yields (sound : inner.Sound m) (enclosed : p.openClosers ≠ [])
    (here : p.kind = .kwElseIf) :
    Yields m (fun t => t.nodeKind? = some .elseifClause) p (elseifClause inner p) := by
  refine .node (elseifClause_begins sound.progresses.traced enclosed).reads ?_
  intro tidy
  exact sound.body _ (branch_builds sound here (by decide) tidy)

theorem elseClause_yields (sound : inner.Sound m) (enclosed : p.openClosers ≠ [])
    (here : p.kind = .kwElse) :
    Yields m (fun t => t.nodeKind? = some .elseClause) p (elseClause inner p) := by
  refine .node (elseClause_begins sound.progresses.traced enclosed).reads ?_
  intro tidy
  exact sound.body _ (Builds.opened tidy .elseClause here (by decide) none)

theorem clauseStep_builds (sound : inner.Sound m) {k : NodeKind} {L : Language Tree} (f : Frame)
    (enclosed : f.parser.openClosers ≠ []) (h : f.Builds m k L) :
    (clauseStep inner f).2 = true ∧
        (clauseStep inner f).1.Builds m k (L * node .elseifClause (some .alternative)) ∨
      (clauseStep inner f).2 = false ∧ (clauseStep inner f).1.Builds m k L := by
  unfold clauseStep
  split
  · next here =>
    exact .inl ⟨rfl, h.child (elseifClause_yields sound enclosed here) fun _ => mem_node _⟩
  · exact .inr ⟨rfl, h⟩

theorem branches_builds (sound : inner.Sound m) {k : NodeKind} {L : Language Tree} {f : Frame}
    (enclosed : f.parser.openClosers ≠ []) (h : f.Builds m k L) : (branches inner f).Builds m k
      (L * Production.body * (node .elseifClause (some .alternative))∗ *
        (1 + node .elseClause (some .alternative))) := by
  have traced := sound.progresses.traced
  have keeps : ∀ g : Frame, g.parser.openClosers ≠ [] →
      (clauseStep inner g).1.parser.openClosers ≠ [] := fun g inside =>
    (clauseStep_grows traced inside).later.openClosers ▸ inside
  have first : (inner.body branchEnds f).parser.openClosers ≠ [] :=
    (traced.body _ f branchEnds_closing enclosed).later.openClosers ▸ enclosed
  have clauses := (sound.body branchEnds h).many_keeping first keeps (clauseStep_builds sound)
  have last : ((inner.body branchEnds f).loop (clauseStep inner)).parser.openClosers ≠ [] :=
    Frame.loop_keeps keeps first
  rw [branches_eq]
  exact clauses.optional fun here =>
    clauses.child (elseClause_yields sound last here) fun _ => mem_node _

theorem conditional_yields (sound : inner.Sound m) (here : p.kind = .kwIf) :
    Yields m (fun t => t.nodeKind? = some .ifStatement) p (conditional inner p) := by
  refine .node (conditional_begins sound.progresses.traced p).reads ?_
  intro tidy
  have headed := branch_builds (m := m) sound (k := .ifStatement) here (by decide) tidy
  exact (headed.within (List.cons_ne_nil _ _) fun _ enclosed built =>
    branches_builds sound enclosed built).close rfl (by decide)

/-! ## Functions -/

theorem memberStep_builds {k : NodeKind} {L : Language Tree} (f : Frame) (h : f.Builds m k L) :
    (memberStep f).2 = true ∧ (memberStep f).1.Builds m k (L * member m) ∨
      (memberStep f).2 = false ∧ (memberStep f).1.Builds m k L := by
  unfold memberStep
  split
  · next here =>
    rw [member, ← mul_assoc]
    exact .inl ⟨rfl, (h.bump here (by decide) none).expectName .name⟩
  · exact .inr ⟨rfl, h⟩

/-- A method after a colon. -/
theorem method_builds {k : NodeKind} {L : Language Tree} {f : Frame} (h : f.Builds m k L)
    (here : f.current = .colon) : (f.bump.expectName .method).Builds m k (L * method m) := by
  rw [method, ← mul_assoc]
  exact (h.bump here (by decide) none).expectName .method

theorem qualifiedName_yields (here : p.kind = .identifier)
    (several : p.second.1 = .dot ∨ p.second.1 = .colon) :
    Yields m (fun t => t.nodeKind? = some .functionName) p (qualifiedName p) := by
  refine .node (qualifiedName_begins p).reads ?_
  intro tidy
  have first := Builds.opened (m := m) tidy .functionName here (by decide) (some .base)
  have there : (p.start .functionName).current ≠ .eof := ne_of_eq_of_ne here (by decide)
  have next := current_bump there (some .base)
  rw [qualifiers_eq]
  dsimp only
  rcases several with dot | colon
  · have members := first.several memberStep_builds (by
      unfold memberStep
      rw [if_pos (next.trans dot)])
    have named := members.optional fun here => method_builds members here
    rw [mul_assoc] at named
    exact named.left
  -- Before a colon there are no members, so the method is what makes the name one of several parts.
  · have none : memberStep ((p.start .functionName).bump (some .base)) =
        ((p.start .functionName).bump (some .base), false) := by
      unfold memberStep
      rw [if_neg (by rw [next.trans colon]; decide)]
    rw [loop_of_stop (by rw [none]), none, if_pos (next.trans colon)]
    exact (method_builds first (next.trans colon)).right

theorem functionName_builds {k : NodeKind} {L : Language Tree} {f : Frame} (h : f.Builds m k L)
    (here : f.current = .identifier) : (functionName f).Builds m k
      (L * (wanted m .identifier (some .name) + node .functionName (some .name))) := by
  rcases functionName_cases f with ⟨several, e⟩ | ⟨_, e⟩ <;> rw [e]
  · exact (h.child (qualifiedName_yields here several) fun _ => mem_node _).right
  · exact (h.second.expectName .name).left

theorem functionDefinition_yields (sound : inner.Sound m) (here : p.kind = .kwFunction)
    (named : p.second.1 = .identifier) :
    Yields m (fun t => t.nodeKind? = some .functionDefinition) p (functionDefinition inner p) := by
  refine .node (functionDefinition_begins sound.progresses.traced p).reads ?_
  intro tidy
  have there : (p.start .functionDefinition).current ≠ .eof := ne_of_eq_of_ne here (by decide)
  have opened := Builds.opened (m := m) tidy .functionDefinition here (by decide) none
  exact ((functionName_builds opened ((current_bump there none).trans named)).parameters.closedBody
    sound rfl (by decide))

/-! ## Declarations -/

theorem declarator_yields (sound : inner.Sound m) (p : Parser) :
    Yields m (fun t => t.nodeKind? = some .declarator) p (declarator inner p) := by
  have reads := declarator_reads sound.progresses.traced p
  have named : p.Tidy → ((p.start .declarator).expectName .name).Builds m .declarator
      (wanted m .identifier (some .name)) := fun tidy => by
    have built := (Builds.start (m := m) tidy .declarator).expectName .name
    rwa [one_mul] at built
  rcases declarator_cases inner p with ⟨here, e⟩ | ⟨_, e⟩ <;> rw [e] at reads ⊢
  · refine .node reads ?_
    intro tidy
    have valued := ((named tidy).bump here (by decide) none).operand sound Power.assignment
      (some .value)
    rw [mul_assoc] at valued
    exact valued.right
  · exact .node reads fun tidy => (named tidy).without

/-- What stands before the names that are declared. -/
theorem declaredType_builds (tidy : p.Tidy) :
    (declaredType p.kind.isModifier
      ((p.start .variableDeclaration).bumpWhile (some .modifier) Kind.isModifier)).Builds m
        .variableDeclaration (modifier * modifier∗ +
          modifier∗ * wanted m .identifier (some .type) * (token .kwArray (some .modifier))∗) := by
  have start := Builds.start (m := m) tidy .variableDeclaration
  have modified := start.bumpWhile (some .modifier) Kind.isModifier rfl
  rw [one_mul] at modified
  rcases declaredType_cases p.kind.isModifier ((p.start .variableDeclaration).bumpWhile
    (some .modifier) Kind.isModifier) with ⟨⟨name, _⟩, e⟩ | ⟨q, looked, ⟨mod, e⟩ | e⟩ <;> rw [e]
  · have type := (modified.bump name (by decide) (some .type)).left
      (Y := junk m * token .identifier (some .type) +
        repaired m (placeholder .identifier (some .type)))
    have array : tokenOf (fun k => decide (k = .kwArray) = true) (some .modifier) =
        token .kwArray (some .modifier) := by simp only [decide_eq_true_eq, token]
    rw [← array]
    exact (type.bumpWhile (some .modifier) (· = .kwArray) rfl).mono le_add_self
  · have several := start.bumpWhile_several (some .modifier) Kind.isModifier rfl mod
    rw [one_mul] at several
    exact (several.looking looked).mono le_self_add
  · exact ((modified.looking looked).expectName .type).starred.mono le_add_self

theorem declaration_yields (sound : inner.Sound m) (p : Parser) :
    Yields m (fun t => t.nodeKind? = some .variableDeclaration) p (declaration inner p) := by
  have traced := sound.progresses.traced
  refine .node (declaration_reads traced p) ?_
  intro tidy
  exact (declaredType_builds tidy).commaSeparated
    (fun g => (Grows.refl g).child (declarator_reads traced _))
    fun g built => built.child (declarator_yields sound _) fun _ => mem_node _

theorem single_yields {k : NodeKind} {kind : Kind} (construct : k.isConstruct = true)
    (here : p.kind = kind) (takes : kind ≠ .eof)
    (derived : production m k = token kind) :
    Yields m (fun t => t.nodeKind? = some k) p (single k p) := by
  refine .node (single_begins construct p).reads ?_
  intro tidy
  rw [derived]
  exact Builds.opened tidy k here takes none

theorem returnStatement_yields (sound : inner.Sound m) (here : p.kind = .kwReturn) :
    Yields m (fun t => t.nodeKind? = some .returnStatement) p (returnStatement inner p) := by
  have traced := sound.progresses.traced
  refine .node (returnStatement_begins traced p).reads ?_
  intro tidy
  have start := Builds.opened (m := m) tidy .returnStatement here (by decide) none
  exact start.optional fun _ => start.commaSeparated
    (fun g => (Grows.refl g).child (traced.binding _ _)) fun g built => built.operand sound _ _

theorem expression_yields (sound : inner.Sound m) (p : Parser) :
    Yields m (fun t => t.nodeKind? = some .expressionStatement) p (expression inner p) := by
  refine .node (expression_reads sound.progresses.traced p) ?_
  intro tidy
  have built := (Builds.start (m := m) tidy .expressionStatement).operand sound Power.comma none
  rw [one_mul] at built
  exact built

/-! ## All statements -/

theorem yields_second {C : Tree → Prop} {r : Tree × Parser} (h : Yields m C p.second.2 r) :
    Yields m C p r := by
  refine ⟨reads_second h.reads, fun tidy => h.fits ?_⟩
  rcases p.second_looked with e | e <;> rw [e]
  · exact tidy
  · exact ⟨tidy.pending, tidy.ahead, tidy.trailing⟩

/-- A node of a kind is one of a class that the kind belongs to. -/
theorem isStatement {k : NodeKind} {r : Tree × Parser} (statement : k.isStatement = true)
    (h : Yields m (fun t => t.nodeKind? = some k) p r) :
    Yields m (fun t => ∃ k, t.nodeKind? = some k ∧ k.isStatement = true) p r :=
  h.imp fun _ node => ⟨k, node, statement⟩

theorem statement_yields (sound : inner.Sound m) (p : Parser) :
    Yields m (fun t => ∃ k, t.nodeKind? = some k ∧ k.isStatement = true) p (statement inner p) := by
  unfold statement
  split
  · exact isStatement rfl (declaration_yields sound p)
  · exact isStatement rfl (declaration_yields sound p)
  · exact isStatement rfl (declaration_yields sound p)
  · dsimp only
    split
    · exact yields_second (isStatement rfl (declaration_yields sound _))
    · exact yields_second (isStatement rfl (expression_yields sound _))
  · next here =>
    exact isStatement rfl (simpleBlock_yields sound here rfl (by decide) (by decide) rfl)
  · next here => exact isStatement rfl (struct_yields sound here)
  · next here =>
    exact isStatement rfl (simpleBlock_yields sound here rfl (by decide) (by decide) rfl)
  · next here =>
    exact isStatement rfl (simpleBlock_yields sound here rfl (by decide) (by decide) rfl)
  · next here => exact isStatement rfl (whileLoop_yields sound here)
  · next here => exact isStatement rfl (repeatLoop_yields sound here)
  · next here => exact isStatement rfl (conditional_yields sound here)
  · next here =>
    dsimp only
    split
    · next named =>
      rw [Parser.second_of_ne_eof (by rw [named]; decide)]
      exact isStatement rfl (functionDefinition_yields sound here named)
    · exact yields_second (isStatement rfl (expression_yields sound _))
  · next here => exact isStatement rfl (returnStatement_yields sound here)
  · next here => exact isStatement rfl (single_yields rfl here (by decide) rfl)
  · next here => exact isStatement rfl (single_yields rfl here (by decide) rfl)
  · exact isStatement rfl (expression_yields sound p)

theorem bodyStep_builds (sound : inner.Sound m) (construct : NodeKind) (terminators : List Kind)
    {k : NodeKind} {L : Language Tree} (f : Frame) (h : f.Builds m k L) :
    (bodyStep inner construct terminators f).2 = true ∧
        (bodyStep inner construct terminators f).1.Builds m k (L * Production.statement m) ∨
      (bodyStep inner construct terminators f).2 = false ∧
        bodyStep inner construct terminators f = (f, false) := by
  unfold bodyStep
  dsimp only
  split
  · exact .inr ⟨rfl, rfl⟩
  · next ends =>
    split
    · exact .inl ⟨rfl, (h.child (statement_yields sound _) fun _ => mem_nodeOf _).left⟩
    · exact .inl ⟨rfl, (h.skip f.parser.span _ fun eof => ends (.inl eof)).right⟩

/-- A body is a block of statements, or there is none. -/
theorem body_builds (sound : inner.Sound m) (terminators : List Kind) {k : NodeKind}
    {L : Language Tree} {f : Frame} (h : f.Builds m k L) :
    (body inner terminators f).Builds m k (L * Production.body) := by
  have traced := sound.progresses.traced
  let start := f.parser.start .block
  let block := start.loop (bodyStep inner f.kind terminators)
  have grown : Grows start block := (Grows.refl _).loop (bodyStep_grows traced _ _)
  have begun := Builds.start (m := m) h.tidy .block
  have each : ∀ {M : Language Tree} (g : Frame), g.Builds m .block M →
      (bodyStep inner f.kind terminators g).2 = true ∧
          (bodyStep inner f.kind terminators g).1.Builds m .block (M * Production.statement m) ∨
        (bodyStep inner f.kind terminators g).2 = false ∧
          (bodyStep inner f.kind terminators g).1.Builds m .block M := by
    intro M g built
    rcases bodyStep_builds sound f.kind terminators g built with more | ⟨stop, same⟩
    · exact .inl more
    · rw [same]
      exact .inr ⟨rfl, built⟩
  unfold body
  dsimp only
  split
  · exact (h.reparse (grown.tidy h.tidy) grown.later.errors).without
  · next filled =>
    -- A first round that ends the loop would have left the block empty.
    have first : (bodyStep inner f.kind terminators start).2 = true := by
      rcases bodyStep_builds sound f.kind terminators start begun with ⟨go, _⟩ | ⟨stop, same⟩
      · exact go
      · refine absurd ?_ filled
        show block.children.isEmpty = true
        rw [show block = _ from loop_of_stop stop, same]
        rfl
    have yields : Yields m (fun t => t.nodeKind? = some .block) f.parser block.finish := by
      refine .node (.node .block rfl grown) ?_
      intro _
      have several := begun.several each first
      rwa [one_mul] at several
    exact (h.attach yields fun _ => mem_node _).right

end Statement

/-! ## Levels -/

namespace Level

/-- A region beyond the nesting limit. -/
theorem tooDeep_yields (limit n : Nat) {p : Parser} (here : p.ahead.toList ≠ []) :
    Yields m (fun t => m = .full ∧ t.nodeKind? = some .error) p
      (((complainTooDeep limit p).start .error).bumps (n + 1)).finish := by
  refine ⟨.tooDeep here, ?_⟩
  intro tidy admits
  have later : (complainTooDeep limit p).Later
      (((complainTooDeep limit p).start .error).bumps (n + 1)).parser :=
    Parser.Later.bumps (f := (complainTooDeep limit p).start .error) (.refl _)
  have full : m = .full := (admits.of_prefix later.errors).eq_full
  have repairs : m ≠ .clean := by rw [full]; decide
  have first : ((complainTooDeep limit p).start .error).current ≠ .eof := fun eof => by
    have none := (tidy.complainTooDeep limit).ahead_eq_nil eof
    rw [complainTooDeep_ahead] at none
    exact here none
  have taken := (Frame.Builds.start (m := m) (tidy.complainTooDeep limit) .error).bumpAny first
  rw [one_mul] at taken
  exact ((taken.starred.bumps n).finish_error repairs admits).imp fun error => ⟨full, error⟩

theorem cutOff_sound (limit : Nat) : (cutOff limit).Sound m where
  progresses := cutOff_progresses limit
  binding power p := by
    rcases cutOff_binding_cases limit power p with ⟨_, e⟩ | ⟨n, region, e⟩ <;> rw [e]
    · refine ⟨.absentTooDeep, ?_⟩
      intro _ admits
      have repairs : m ≠ .clean := by rw [admits.eq_full]; decide
      exact ⟨⟨.absent repairs, (fun node => by cases node), fun _ _ op => by cases op⟩, rfl,
        Tree.lawful_missing repairs _ _ _⟩
    · have ahead := ahead_of_regionLength region
      refine (tooDeep_yields limit n ahead).imp ?_
      rintro t ⟨full, node⟩
      exact ⟨.error node (by rw [full]; decide), (Tree.isPlain_of_node node rfl).binds power⟩
  -- Cutting off is complained about, which only full tolerance admits.
  stops power p limited admits := by
    have later : (complainTooDeep limit p).Later ((cutOff limit).binding power p).2 := by
      rcases cutOff_binding_cases limit power p with ⟨_, e⟩ | ⟨n, _, e⟩ <;> rw [e]
      · exact .refl _
      · exact Parser.Later.bumps (f := (complainTooDeep limit p).start .error) (.refl _)
    exact absurd (admits.of_prefix later.errors).eq_full limited
  body terminators {k L f} h := by
    rcases cutOff_body_cases limit terminators f with ⟨_, e⟩ | ⟨ahead, n, e⟩ <;> rw [e]
    · exact (h.reparse (h.tidy.complainTooDeep limit)
        (f.parser.later_complainTooDeep limit).errors).without
    · let region := (((complainTooDeep limit f.parser).start .error).bumps (n + 1)).finish
      have block : Yields m (fun t => t.nodeKind? = some .block) f.parser
          ((region.2.start .block).attach none region.1).finish := by
        refine .node (.around .block rfl (.tooDeep ahead) (.refl _)) ?_
        intro tidy
        refine Frame.Builds.starred (.begun (tooDeep_yields limit n ahead) tidy .block ?_)
        rintro ⟨full, node⟩
        exact .inr ⟨by rw [full]; decide, mem_node none node⟩
      exact (h.child block fun _ => mem_node _).right

/-- What is read one level deeper is read. -/
theorem yields_nested {C : Tree → Prop} {p : Parser} {r : Tree × Parser}
    (h : Yields m C { p with depth := p.depth + 1 } r) : Yields m C p (r.1, r.2.ascend) :=
  ⟨.nested h.reads, fun tidy => h.fits ⟨tidy.pending, tidy.ahead, tidy.trailing⟩⟩

theorem above_sound (limit : Nat) (sound : inner.Sound m) : (inner.above limit).Sound m where
  progresses := above_progresses limit sound.progresses
  binding power p := by
    rcases above_binding_cases limit inner power p with ⟨_, e⟩ | ⟨_, e⟩ <;> rw [e]
    · exact (cutOff_sound limit).binding power p
    · exact yields_nested (Expression.binding_yields sound power _)
  stops power p := by
    rcases above_binding_cases limit inner power p with ⟨_, e⟩ | ⟨_, e⟩ <;> rw [e]
    · exact (cutOff_sound limit).stops power p
    · exact Expression.binding_stops sound.progresses.traced power _
  body terminators {k L f} h := by
    rcases above_body_cases limit inner terminators f with ⟨_, e⟩ | ⟨_, e⟩ <;> rw [e]
    · exact (cutOff_sound limit).body terminators h
    · have entered := h.reparse (q := { f.parser with depth := f.parser.depth + 1 })
        ⟨h.tidy.pending, h.tidy.ahead, h.tidy.trailing⟩ (List.prefix_refl _)
      have built := Statement.body_builds sound terminators entered
      exact built.reparse ⟨built.tidy.pending, built.tidy.ahead, built.tidy.trailing⟩
        (List.prefix_refl _)

theorem stack_sound (limit room : Nat) : (stack limit room).Sound m := by
  induction room with
  | zero => exact cutOff_sound limit
  | succ room ih => exact above_sound limit ih

end Level

/-! ## Programs -/

namespace Program

theorem step_builds (sound : inner.Sound m) {k : NodeKind} {L : Language Tree} (f : Frame)
    (h : f.Builds m k L) :
    (step inner f).2 = true ∧ (step inner f).1.Builds m k (L * Production.statement m) ∨
      (step inner f).2 = false ∧ (step inner f).1.Builds m k L := by
  unfold step
  dsimp only
  split
  · exact .inr ⟨rfl, h⟩
  · next here =>
    split
    · exact .inl ⟨rfl, (h.child (Statement.statement_yields sound _) fun _ => mem_nodeOf _).left⟩
    · exact .inl ⟨rfl, (h.skip f.parser.span _ here).right⟩

/-- Whatever the tokens, if the errors are tolerated, every node of the tree has children that its
kind may have. -/
theorem parseWithin_lawful (limit : Nat) (tokens : List Token)
    (admits : m.Admits (parseWithin limit tokens).2) : (parseWithin limit tokens).1.Lawful m := by
  have tidy := Parser.tidy_ofTokens tokens
  have built := (Frame.Builds.start (m := m) tidy .program).many
    (step_builds (Level.stack_sound limit limit))
  rw [one_mul] at built
  have word := built.word admits
  have parts : (parseWithin limit tokens).1.parts =
      Tree.significant (((Parser.ofTokens tokens).start .program).loop
        (step (.stack limit limit))).children.toList := by
    have pending := Tree.significant_of_comments built.tidy.pending
    have trailing := Tree.significant_of_comments built.tidy.trailing
    simp [parseWithin, finish, Tree.parts, Tree.children, Frame.flush, pending, trailing]
  refine .intro ⟨fun _ => rfl, fun kind node => ?_⟩ fun t part => ?_
  · cases node
    rw [parts]
    exact word.1
  · rw [parts] at part
    exact word.2 t part

end Program

end JassSyntax
