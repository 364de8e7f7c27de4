import JassSyntax.Proofs.Simulation.Expressions

/-!
# Statements side by side

Levels that read alike inside make statements, bodies and whole programs that are read alike.
-/

namespace JassSyntax

open Simulation

variable {σ : Simulation} {u l : Level} {p q : Parser} {f g : Frame}

namespace Statement

open JassSyntax.Frame (enclosed_alike closedBody_alike parameters_alike)

/-! ## Blocks -/

theorem simpleBlock_alike (alike : u.Alike σ l) {k : NodeKind} {closer : Kind}
    (closes : k.closer = some closer) (h : σ.Parsers p q) (here : p.kind ≠ .eof) :
    σ.Results .beside (simpleBlock u k p) (simpleBlock l k q) :=
  σ.finish (closedBody_alike alike (Grows.refl _).bump closes (σ.bump none (σ.start k h) here))

theorem struct_alike (alike : u.Alike σ l) (h : σ.Parsers p q) (here : p.kind ≠ .eof) :
    σ.Results .beside (struct u p) (struct l q) :=
  σ.finish (closedBody_alike alike (Grows.refl _).bump.expectName rfl
    (expectName (σ.bump none (σ.start .structDefinition h) here) .name))

theorem whileLoop_alike (alike : u.Alike σ l) (h : σ.Parsers p q) (here : p.kind ≠ .eof) :
    σ.Results .beside (whileLoop u p) (whileLoop l q) := by
  have begun := σ.bump none (σ.start .whileStatement h) here
  exact σ.finish (closedBody_alike alike
    ((Grows.refl _).bump.child (alike.traced.binding _ _)).expect rfl
    (expect (enclosed_alike alike begun rfl (by decide)) (by decide) none))

theorem repeatLoop_alike (alike : u.Alike σ l) (h : σ.Parsers p q) (here : p.kind ≠ .eof) :
    σ.Results .beside (repeatLoop u p) (repeatLoop l q) := by
  have opened := σ.bump none (σ.start .repeatStatement h) here
  have nonempty : [Kind.kwUntil] ≠ [] := List.cons_ne_nil _ _
  have closing : ∀ k ∈ [Kind.kwUntil], k.isClosingKeyword = true := by decide
  have inside := Frame.enclosed_enterBlock nonempty (p.start .repeatStatement).bump.parser
  have closes : (p.start .repeatStatement).bump.kind.closer = some .kwUntil := by
    rw [Frame.kind_bump]
    rfl
  refine σ.finish (σ.block opened closes nonempty closing (alike.traced.body _ _ closing inside)
    (alike.body closing inside) ?_ fun same closed => ?_)
  · split
    · exact (Grows.refl _).child (alike.traced.binding _ _)
    · exact .refl _
  · show σ.Frames
      (if (u.body [.kwUntil]
          ((p.start .repeatStatement).bump.entered [.kwUntil])).current = .kwUntil
        then _ else _)
      (if (l.body [.kwUntil]
          ((q.start .repeatStatement).bump.entered [.kwUntil])).current = .kwUntil
        then _ else _)
    rw [Frame.current, Frame.current, ite_cond_congr (same.is (by decide))]
    split
    · exact enclosed_alike alike closed rfl (by decide)
    · exact closed

/-! ## Branches -/

theorem branch_alike (alike : u.Alike σ l) (h : σ.Frames f g) (here : f.current ≠ .eof) :
    σ.Frames (branch u f) (branch l g) :=
  expect (enclosed_alike alike (σ.bump none h here) rfl (by decide)) (by decide) none

theorem elseifClause_alike (alike : u.Alike σ l) (enclosed : p.openClosers ≠ [])
    (h : σ.Parsers p q) (here : p.kind ≠ .eof) :
    σ.Results .beside (elseifClause u p) (elseifClause l q) := by
  have headed := branch_grows alike.traced (p.start .elseifClause)
  have same : (branch u (p.start .elseifClause)).parser.openClosers = p.openClosers :=
    ((Parser.Later.bump (f := p.start .elseifClause) (.refl _)).trans headed.later).openClosers
  exact σ.finish (alike.body branchEnds_closing (same ▸ enclosed)
    (branch_alike alike (σ.start .elseifClause h) here))

theorem elseClause_alike (alike : u.Alike σ l) (enclosed : p.openClosers ≠ [])
    (h : σ.Parsers p q) (here : p.kind ≠ .eof) :
    σ.Results .beside (elseClause u p) (elseClause l q) := by
  have same : (p.start .elseClause).bump.parser.openClosers = p.openClosers :=
    (Parser.Later.bump (f := p.start .elseClause) (.refl _)).openClosers
  exact σ.finish (alike.body (by decide) (same ▸ enclosed)
    (σ.bump none (σ.start .elseClause h) here))

theorem clauseStep_alike (alike : u.Alike σ l) (enclosed : f.parser.openClosers ≠ [])
    (h : σ.Frames f g) : σ.Steps (clauseStep u f) (clauseStep l g) := by
  refine .counting h (clauseStep_grows alike.traced enclosed) fun same _ => ?_
  have current : (g.current = .kwElseIf) = (f.current = .kwElseIf) := same.is (by decide)
  unfold clauseStep
  rw [ite_cond_congr current]
  split
  · next clause =>
    have here : f.current ≠ .eof := by rw [clause]; decide
    exact .of_frames (childBeside h rfl (elseifClause_begins alike.traced enclosed).reads
      fun parsers => elseifClause_alike alike enclosed parsers here) true
  · exact .of_frames h false

theorem branches_alike (alike : u.Alike σ l) (enclosed : f.parser.openClosers ≠ [])
    (h : σ.Frames f g) : σ.Frames (branches u f) (branches l g) := by
  have first := alike.traced.body branchEnds f branchEnds_closing enclosed
  have inside : ∀ {f₁}, Grows (u.body branchEnds f) f₁ → f₁.parser.openClosers ≠ [] :=
    fun grown => (first.trans grown).later.openClosers ▸ enclosed
  have clauses : Grows (u.body branchEnds f)
      ((u.body branchEnds f).loop (clauseStep u)) :=
    (Grows.refl _).loop_from fun _ grown => clauseStep_grows alike.traced (inside grown)
  have looped : σ.Frames ((u.body branchEnds f).loop (clauseStep u))
      ((l.body branchEnds g).loop (clauseStep l)) :=
    loop_from (alike.body branchEnds_closing enclosed h) fun before related =>
      ⟨clauseStep_grows alike.traced (inside before),
        clauseStep_alike alike (inside before) related⟩
  have last := elseClause_begins alike.traced (inside clauses)
  rw [branches_eq, branches_eq]
  refine Simulation.branch (c := (· = .kwElse)) looped (by simp) ?_ (fun clause => ?_)
    fun _ => looped
  · split
    · exact (Grows.refl _).child last.reads
    · exact .refl _
  · have here : ((u.body branchEnds f).loop (clauseStep u)).current ≠ .eof := by
      rw [clause]
      decide
    exact childBeside looped rfl last.reads fun parsers =>
      elseClause_alike alike (inside clauses) parsers here

theorem conditional_alike (alike : u.Alike σ l) (h : σ.Parsers p q) (here : p.kind ≠ .eof) :
    σ.Results .beside (conditional u p) (conditional l q) := by
  have headed := branch_alike alike (σ.start .ifStatement h) here
  have closes : (branch u (p.start .ifStatement)).kind.closer = some .kwEnd := by
    rw [(branch_grows alike.traced _).kind, Frame.kind_bump]
    rfl
  have nonempty : branchEnds ≠ [] := List.cons_ne_nil _ _
  have inside := Frame.enclosed_enterBlock nonempty (branch u (p.start .ifStatement)).parser
  exact σ.finish (σ.block headed closes nonempty branchEnds_closing
    (branches_grows alike.traced inside) (branches_alike alike inside) (.refl _)
    fun _ closed => closed)

/-! ## Functions -/

theorem memberStep_alike (h : σ.Frames f g) : σ.Steps (memberStep f) (memberStep g) := by
  refine .counting h (memberStep_grows f) fun same _ => ?_
  have current : (g.current = .dot) = (f.current = .dot) := same.is (by decide)
  unfold memberStep
  rw [ite_cond_congr current]
  split
  · next dot =>
    exact .of_frames (expectName (σ.bump none h (by rw [dot]; decide)) .name) true
  · exact .of_frames h false

theorem qualifiers_alike (h : σ.Frames f g) : σ.Frames (qualifiers f) (qualifiers g) := by
  have members := loop h memberStep_grows (memberStep_alike (σ := σ))
  rw [qualifiers_eq, qualifiers_eq]
  refine Simulation.branch (c := (· = .colon)) members (by simp) ?_
    (fun colon => expectName (σ.bump none members (by rw [colon]; decide)) .method)
    fun _ => members
  split
  · exact (Grows.refl _).bump.expectName
  · exact .refl _

theorem functionName_alike (h : σ.Frames f g) (here : f.current ≠ .eof) :
    σ.Frames (functionName f) (functionName g) := by
  refine σ.counting h (functionName_grows f) fun same _ => ?_
  have looked := σ.second h here
  have next : (g.parser.second.1 = .dot ∨ g.parser.second.1 = .colon) =
      (f.parser.second.1 = .dot ∨ f.parser.second.1 = .colon) :=
    same.second_blind (c := fun k => k = .dot ∨ k = .colon) here (by simp)
  have reads : Reads f.second.2.parser (qualifiedName f.second.2.parser).1
      (qualifiedName f.second.2.parser).2 := (qualifiedName_begins _).reads
  show σ.Frames (if f.parser.second.1 = .dot ∨ f.parser.second.1 = .colon then _ else _)
    (if g.parser.second.1 = .dot ∨ g.parser.second.1 = .colon then _ else _)
  rw [ite_cond_congr next]
  split
  · have there : f.second.2.current ≠ .eof := fun eof => here (f.parser.kind_second.symm.trans eof)
    exact childBeside looked rfl reads fun h =>
      σ.finish (qualifiers_alike (σ.bump _ (σ.start .functionName h) there))
  · exact expectName looked .name

theorem functionDefinition_alike (alike : u.Alike σ l) (h : σ.Parsers p q)
    (here : p.kind ≠ .eof) (named : p.second.1 = .identifier) :
    σ.Results .beside (functionDefinition u p) (functionDefinition l q) := by
  have name : (p.start .functionDefinition).bump.current ≠ .eof := by
    rw [Frame.current_bump (f := p.start .functionDefinition) here]
    show p.second.1 ≠ .eof
    rw [named]
    decide
  have headed := parameters_alike
    (functionName_alike (σ.bump none (σ.start .functionDefinition h) here) name)
  exact σ.finish (closedBody_alike alike (((Grows.refl _).bump.trans (functionName_grows _)).trans
    (Frame.parameters_grows _)) rfl headed)

/-! ## Declarations -/

theorem declarator_alike (alike : u.Alike σ l) (h : σ.Parsers p q) :
    σ.Results .beside (declarator u p) (declarator l q) := by
  have assigns : ∀ (inner : Level) p, declarator inner p =
      (if (((p.start .declarator).expectName .name).eat .equals).2 then
        (((p.start .declarator).expectName .name).eat .equals).1.child (some .value)
          inner.expression
      else (((p.start .declarator).expectName .name).eat .equals).1).finish := fun _ _ => rfl
  have named := Simulation.eat (k := .equals) (expectName (σ.start .declarator h) .name) (by decide)
  rw [assigns, assigns]
  refine σ.finish (named.follow ?_ fun assigned told => ?_)
  · split
    · exact (Grows.refl _).child (alike.traced.binding _ _)
    · exact .refl _
  · rw [told]
    split
    · exact enclosed_alike alike assigned rfl (by decide)
    · exact assigned

theorem declaredType_alike (modified : Bool) (h : σ.Frames f g) :
    σ.Frames (declaredType modified f) (declaredType modified g) := by
  refine σ.counting h (declaredType_grows modified f) fun same _ => ?_
  have current : (g.current = .identifier) = (f.current = .identifier) := same.is (by decide)
  by_cases name : f.current = .identifier
  · have name' := current.mpr name
    have here : f.current ≠ .eof := by rw [name]; decide
    have next : (g.parser.second.1 = .identifier ∨ g.parser.second.1 = .kwArray) =
        (f.parser.second.1 = .identifier ∨ f.parser.second.1 = .kwArray) :=
      same.second_blind (c := fun k => k = .identifier ∨ k = .kwArray) here (by simp)
    have looked := σ.second h here
    have named : f.second.2.current = .identifier := f.parser.kind_second.trans name
    have named' : g.second.2.current = .identifier := g.parser.kind_second.trans name'
    unfold declaredType
    rw [if_pos name, if_pos name']
    show σ.Frames (if f.parser.second.1 = .identifier ∨ f.parser.second.1 = .kwArray then _ else
        if modified ∧ f.second.2.current = .identifier then _ else _)
      (if g.parser.second.1 = .identifier ∨ g.parser.second.1 = .kwArray then _ else
        if modified ∧ g.second.2.current = .identifier then _ else _)
    rw [ite_cond_congr next, named, named']
    split
    · exact bumpWhile (σ.bump _ looked (by rw [named]; decide)) _ _ rfl rfl
    split
    · exact looked
    · exact expectName looked .type
  · have plain : ∀ {f : Frame}, f.current ≠ .identifier →
        declaredType modified f = f.expectName .type := by
      intro f other
      unfold declaredType
      rw [if_neg other]
      simp [other]
    rw [plain name, plain (mt current.mp name)]
    exact expectName h .type

theorem declaration_alike (alike : u.Alike σ l) (h : σ.Parsers p q) :
    σ.Results .beside (declaration u p) (declaration l q) := by
  have modified : q.kind.isModifier = p.kind.isModifier := (σ.agrees h).blind rfl
  have typed := declaredType_alike p.kind.isModifier
    (bumpWhile (σ.start .variableDeclaration h) (some .modifier) Kind.isModifier rfl rfl)
  unfold declaration
  rw [modified]
  exact σ.finish (commaSeparated typed fun _ related =>
    ⟨(Grows.refl _).child (declarator_reads alike.traced _),
      childBeside related rfl (declarator_reads alike.traced _) (declarator_alike alike)⟩)

/-! ## All statements -/

theorem single_alike (k : NodeKind) (h : σ.Parsers p q) (here : p.kind ≠ .eof) :
    σ.Results .beside (single k p) (single k q) :=
  σ.finish (σ.bump none (σ.start k h) here)

theorem returnStatement_alike (alike : u.Alike σ l) (h : σ.Parsers p q) (here : p.kind ≠ .eof) :
    σ.Results .beside (returnStatement u p) (returnStatement l q) := by
  have opened := σ.bump none (σ.start .returnStatement h) here
  have values : ∀ f₁ : Frame, Grows f₁ (f₁.child (some .value) u.expression) := fun f₁ =>
    (Grows.refl f₁).child (alike.traced.binding _ _)
  refine σ.finish (Simulation.branch (c := fun k => k.canStartExpression = true) opened rfl ?_
    (fun _ => ?_) fun _ => opened)
  · split
    · exact (Grows.refl _).commaSeparated values
    · exact .refl _
  · exact commaSeparated opened fun _ related =>
      ⟨values _, enclosed_alike alike related rfl (by decide)⟩

theorem expression_alike (alike : u.Alike σ l) (h : σ.Parsers p q) :
    σ.Results .beside (expression u p) (expression l q) :=
  σ.finish (enclosed_alike alike (σ.start .expressionStatement h) rfl (by decide))

theorem statement_alike (alike : u.Alike σ l) (h : σ.Parsers p q) (here : p.kind ≠ .eof) :
    σ.Results .beside (statement u p) (statement l q) := by
  have looked := σ.look h here
  have there : p.second.2.kind ≠ .eof := p.kind_second.symm ▸ here
  unfold statement
  rw [(σ.agrees h).kind_of_ne_eof here]
  cases p.kind
  case identifier =>
    show σ.Results .beside (if p.second.1 = .identifier ∨ p.second.1 = .kwArray then _ else _)
      (if q.second.1 = .identifier ∨ q.second.1 = .kwArray then _ else _)
    rw [ite_cond_congr ((σ.agrees h).second_blind (c := fun k => k = .identifier ∨ k = .kwArray)
      here (by simp))]
    split
    · exact declaration_alike alike looked
    · exact expression_alike alike looked
  case kwFunction =>
    show σ.Results .beside (if p.second.1 = .identifier then _ else _)
      (if q.second.1 = .identifier then _ else _)
    rw [ite_cond_congr ((σ.agrees h).second_is here (by decide))]
    split
    · next named =>
      exact functionDefinition_alike alike looked there (p.second_second.trans named)
    · exact expression_alike alike looked
  case kwLocal | kwConstant | kwArray => exact declaration_alike alike h
  case kwGlobals | kwLoop | kwDo => exact simpleBlock_alike alike rfl h here
  case kwStruct => exact struct_alike alike h here
  case kwWhile => exact whileLoop_alike alike h here
  case kwRepeat => exact repeatLoop_alike alike h here
  case kwIf => exact conditional_alike alike h here
  case kwReturn => exact returnStatement_alike alike h here
  case kwBreak | semicolon => exact single_alike _ h here
  all_goals exact expression_alike alike h

/-! ## Bodies -/

/-- The complaint about a token that begins no statement of a body. -/
def misfit (construct : NodeKind) (terminators : List Kind) (k : Kind) : Complaint :=
  if k.isClosingKeyword then .closesNothing terminators else .strayInside construct terminators

theorem bodyStep_eq (inner : Level) (construct : NodeKind) (terminators : List Kind) (f : Frame) :
    bodyStep inner construct terminators f =
      if Level.EndsBody terminators f then (f, false)
      else if f.current.canStartStatement then (f.child none (statement inner), true)
      else ((f.complain (misfit construct terminators f.current)).skipAsError, true) := by
  unfold bodyStep
  refine ite_cond_congr (propext ?_)
  simp only [Level.EndsBody, Parser.closesOpenBlock, List.contains_iff_mem]

theorem bodyStep_of_ends {inner : Level} {construct : NodeKind} {terminators : List Kind}
    {f : Frame} (ends : Level.EndsBody terminators f) :
    bodyStep inner construct terminators f = (f, false) := by
  rw [bodyStep_eq, if_pos ends]

/-- The block of the statements in front of what ends a body. -/
def block (inner : Level) (construct : NodeKind) (terminators : List Kind) (p : Parser) :
    Tree × Parser :=
  ((p.start .block).loop (bodyStep inner construct terminators)).finish

theorem block_reads (traced : u.Traced) (construct : NodeKind) (terminators : List Kind)
    (p : Parser) : Reads p (block u construct terminators p).1
      (block u construct terminators p).2 :=
  .node .block rfl ((Grows.refl _).loop (bodyStep_grows traced _ _))

/-- A body is a block, or what ends it stands where it would begin. -/
theorem body_eq (traced : u.Traced) (terminators : List Kind) (f : Frame) :
    body u terminators f =
      if Level.EndsBody terminators f then f
      else f.child (some .body) (block u f.kind terminators) := by
  have same : ∀ q, Level.EndsBody terminators { f with parser := q } ↔
      Level.EndsBody terminators (q.start .block) := fun _ => Iff.rfl
  let start := f.parser.start .block
  unfold body
  dsimp only
  by_cases ends : Level.EndsBody terminators f
  · rw [if_pos ends, Frame.loop_of_stop (by rw [bodyStep_of_ends ((same f.parser).mp ends)]),
      bodyStep_of_ends ((same f.parser).mp ends)]
    rfl
  · rw [if_neg ends]
    refine if_neg fun empty => ?_
    -- The first round puts a child into the block, which stays.
    have first := (Grows.loop_first (bodyStep_grows traced f.kind terminators) start).children
    rw [Array.isEmpty_iff.mp empty, List.prefix_nil, bodyStep_eq,
      if_neg (mt (same f.parser).mpr ends)] at first
    split at first
    · rw [Frame.child, Frame.children_attach] at first
      simp at first
    · rw [Frame.skipAsError, Frame.child, Frame.children_attach] at first
      simp at first

theorem bodyStep_alike (alike : u.Alike σ l) (construct : NodeKind) (terminators : List Kind)
    (at_ : f.kind.place none = .beside) (enclosed : f.parser.openClosers ≠ []) (h : σ.Frames f g) :
    σ.Steps (bodyStep u construct terminators f) (bodyStep l construct terminators g) := by
  refine .counting h (bodyStep_grows alike.traced construct terminators f) fun same _ => ?_
  have current : g.current = f.current := same.enclosed enclosed
  have ends : Level.EndsBody terminators g ↔ Level.EndsBody terminators f := by
    rw [Level.EndsBody, Level.EndsBody, current, same.openClosers]
  rw [bodyStep_eq, bodyStep_eq, current, ite_cond_congr (propext ends)]
  split
  · exact .of_frames h false
  next inside =>
  have here : f.current ≠ .eof := fun eof => inside (.inl eof)
  split
  · exact .of_frames (childBeside h at_ (statement_reads alike.traced _)
      fun parsers => statement_alike alike parsers here) true
  · exact .of_frames (σ.skip _ h here) true

theorem block_alike (alike : u.Alike σ l) (construct : NodeKind) (terminators : List Kind)
    (enclosed : p.openClosers ≠ []) (h : σ.Parsers p q) :
    σ.Results .beside (block u construct terminators p) (block l construct terminators q) := by
  refine σ.finish (loop_from (σ.start .block h) fun {f₁ _} before related => ?_)
  refine ⟨bodyStep_grows alike.traced construct terminators f₁,
    bodyStep_alike alike construct terminators ?_ ?_ related⟩
  · rw [before.kind]
    rfl
  · rw [before.later.openClosers]
    exact enclosed

end Statement

/-! ## Programs -/

namespace Program

/-- Between statements the first text may come to its end. -/
theorem step_alike (alike : u.Alike σ l) (at_ : f.kind.place none = .beside) (h : σ.Frames f g)
    (going : σ.excess = 0 ∨ f.parser.ahead.toList ≠ []) : σ.Steps (step u f) (step l g) := by
  refine .counting h (step_grows alike.traced f) fun same _ => ?_
  unfold step
  dsimp only
  rw [show g.current = f.current from same.kind_eq going]
  split
  · exact .of_frames h false
  next here =>
  split
  · exact .of_frames (childBeside h at_ (Statement.statement_reads alike.traced _)
      fun parsers => Statement.statement_alike alike parsers here) true
  · exact .of_frames (σ.skip _ h here) true

/-- Whole programs are read alike. -/
theorem loop_alike (alike : u.Alike σ l) (none : σ.excess = 0) (h : σ.Parsers p q) :
    σ.Frames ((p.start .program).loop (step u)) ((q.start .program).loop (step l)) := by
  refine loop_from (σ.start .program h) fun {f₁ _} before related => ?_
  refine ⟨step_grows alike.traced f₁, step_alike alike ?_ related (.inl none)⟩
  rw [before.kind]
  rfl

end Program

end JassSyntax
