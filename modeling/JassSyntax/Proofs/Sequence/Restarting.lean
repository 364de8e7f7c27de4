import JassSyntax.Proofs.Reading.Progress

/-!
# Readings that begin anew

Where the last token ended decides where a placeholder stands, and where an empty node lies. A
statement takes a token of its own before it needs either, so it is the same wherever the token in
front of it ended.
-/

namespace JassSyntax

/-- The parser, as if the token in front of it ended elsewhere. -/
def Parser.movedTo (x : Position) (p : Parser) : Parser := { p with lastEnd := x }

variable {p : Parser} {x z : Position} {inner : Level} {limit : Nat}

/-! ## Moves -/

namespace Parser

theorem span_movedTo (here : p.kind ≠ .eof) : (p.movedTo x).span = p.span := by
  obtain ⟨item, head, _⟩ := head_of_kind rfl here
  unfold span
  rw [head, show (p.movedTo x).ahead.head? = some item from head]

theorem complain_movedTo (here : p.kind ≠ .eof) (c : Complaint) :
    (p.movedTo x).complain c = (p.complain c).movedTo x := by
  unfold complain
  rw [span_movedTo here]
  rfl

theorem complainTooDeep_movedTo (here : p.kind ≠ .eof) :
    Level.complainTooDeep limit (p.movedTo x) = (Level.complainTooDeep limit p).movedTo x := by
  unfold Level.complainTooDeep
  rw [complain_movedTo here, show (p.movedTo x).errors = p.errors from rfl]
  split <;> rfl

theorem second_movedTo (p : Parser) (x : Position) : (p.movedTo x).second.1 = p.second.1 := by
  unfold second
  rw [show (p.movedTo x).ahead = p.ahead from rfl]
  cases p.ahead.tail.head? <;> rfl

/-- The end of input is noticed once. -/
theorem second_of_noticed (noticed : p.endNoticedAt = some z) : p.second.2 = p := by
  rcases p.second_looked with e | e <;> rw [e]
  unfold noticeEnd
  rw [noticed, Option.getD_some, ← noticed]

theorem takeLeaf_movedTo (here : p.kind ≠ .eof) : (p.movedTo x).takeLeaf = p.takeLeaf := by
  obtain ⟨item, head, _⟩ := head_of_kind rfl here
  unfold takeLeaf
  rw [head, show (p.movedTo x).ahead.head? = some item from head]
  rfl

end Parser

namespace Frame

/-- A node that begins with the current token. -/
theorem bump_movedTo (here : p.kind ≠ .eof) (k : NodeKind) (role : Option Role) :
    ((p.movedTo x).start k).bump role = (p.start k).bump role := by
  obtain ⟨item, head, _⟩ := Parser.head_of_kind rfl here
  rw [bump_eq (f := p.start k) head, bump_eq (f := (p.movedTo x).start k) head]
  unfold Parser.start
  rw [Parser.span_movedTo here]
  rfl

/-- A node that begins with a token put aside. -/
theorem skip_movedTo (here : p.kind ≠ .eof) (k : NodeKind) (c : Complaint) :
    (((p.movedTo x).start k).complain c).skipAsError = ((p.start k).complain c).skipAsError := by
  have error : (((p.movedTo x).complain c).start .error).bump =
      ((p.complain c).start .error).bump := by
    rw [Parser.complain_movedTo here]
    exact bump_movedTo (p := p.complain c) here .error none
  unfold skipAsError child complain
  dsimp only [Parser.start] at error ⊢
  rw [Parser.span_movedTo here, error]

theorem bumps_movedTo (here : p.kind ≠ .eof) (k : NodeKind) (n : Nat) :
    ((p.movedTo x).start k).bumps (n + 1) = (p.start k).bumps (n + 1) :=
  congrArg (bumps · n) (bump_movedTo here k none)

theorem loop_congr {f g : Frame} {step : Frame → Frame × Bool} (same : step g = step f)
    (remaining : g.parser.remaining = f.parser.remaining) : g.loop step = f.loop step := by
  rw [loop_eq, loop_eq f, same, remaining]

end Frame

/-! ## Expressions -/

namespace Expression

theorem primary_movedTo (starts : p.kind.canStartExpression = true)
    (plain : ¬p.kind.isUnary = true) : primary inner (p.movedTo x) = primary inner p := by
  have here := Kind.ne_eof_of_canStartExpression starts
  have leaf : (p.movedTo x).takeLeaf = p.takeLeaf := Parser.takeLeaf_movedTo here
  have bump : ∀ k role, ((p.movedTo x).start k).bump role = (p.start k).bump role :=
    Frame.bump_movedTo here
  unfold primary
  rw [show (p.movedTo x).kind = p.kind from rfl]
  cases kind : p.kind
  case identifier | number | float => simp only [leaf]
  case stringStart => simp only [string, bump]
  case lBrace => simp only [table, bump]
  case lParen => simp only [parenthesized, bump]
  case kwFunction => simp only [function, bump]
  all_goals
    rw [kind] at starts plain
    exact absurd starts (by first | decide | exact absurd rfl plain)

theorem operand_movedTo (starts : p.kind.canStartExpression = true) :
    operand inner (p.movedTo x) = operand inner p := by
  have here := Kind.ne_eof_of_canStartExpression starts
  have steady : ¬(p.kind.isStray = true ∧ (!p.kind.isClosingBracket) = true) := by
    cases k : p.kind <;> simp_all [Kind.canStartExpression, Kind.isStray]
  unfold operand operandFrom primaryOrStray
  dsimp only
  rw [show (p.movedTo x).kind = p.kind from rfl, Frame.bump_movedTo here, if_neg steady,
    if_neg steady]
  by_cases unary : p.kind.isUnary = true
  · rw [if_pos unary, if_pos unary]
  · rw [if_neg unary, if_neg unary, primary_movedTo starts unary]

end Expression

namespace Level

/-- A level for which an expression begins anew with its first token. -/
def BeginsAnew (inner : Level) : Prop :=
  ∀ power (p : Parser) (x : Position), p.kind.canStartExpression = true →
    inner.binding power (p.movedTo x) = inner.binding power p

theorem cutOff_beginsAnew (limit : Nat) : (cutOff limit).BeginsAnew := by
  intro power p x starts
  have here := Kind.ne_eof_of_canStartExpression starts
  have there : (complainTooDeep limit p).kind ≠ .eof := by
    rcases complainTooDeep_cases limit p with e | e <;> rw [e] <;> exact here
  have some : ∀ {p : Parser}, p.kind.canStartExpression = true →
      regionLength .operand 0 p.ahead.toList ≠ 0 :=
    fun starts => Nat.pos_iff_ne_zero.mp (regionLength_pos starts)
  rcases cutOff_binding_cases limit power p with ⟨empty, _⟩ | ⟨n, length, e⟩
  · exact absurd empty (some starts)
  rcases cutOff_binding_cases limit power (p.movedTo x) with ⟨empty, _⟩ | ⟨m, length', e'⟩
  · exact absurd empty (some starts)
  have same : m = n := Nat.succ.inj (length'.symm.trans length)
  rw [e, e', same, Parser.complainTooDeep_movedTo here, Frame.bumps_movedTo there]

theorem above_beginsAnew (limit : Nat) (inner : Level) : (inner.above limit).BeginsAnew := by
  intro power p x starts
  have inside : Expression.binding inner power { p.movedTo x with depth := p.depth + 1 } =
      Expression.binding inner power { p with depth := p.depth + 1 } := by
    unfold Expression.binding
    exact congrArg _ (Expression.operand_movedTo (p := { p with depth := p.depth + 1 }) starts)
  have depth : (p.movedTo x).depth = p.depth := rfl
  rcases above_binding_cases limit inner power p with ⟨full, e⟩ | ⟨room, e⟩ <;>
    rcases above_binding_cases limit inner power (p.movedTo x) with ⟨full', e'⟩ | ⟨room', e'⟩
  · rw [e, e', cutOff_beginsAnew limit power p x starts]
  · omega
  · omega
  · rw [e, e', depth, inside]

theorem stack_beginsAnew (limit room : Nat) : (stack limit room).BeginsAnew := by
  cases room with
  | zero => exact cutOff_beginsAnew limit
  | succ room => exact above_beginsAnew limit _

end Level

/-! ## Statements -/

namespace Statement

theorem expression_movedTo (anew : inner.BeginsAnew) (starts : p.kind.canStartExpression = true) :
    expression inner (p.movedTo x) = expression inner p := by
  have read : inner.expressionList (p.movedTo x) = inner.expressionList p := anew _ p x starts
  have here := Kind.ne_eof_of_canStartExpression starts
  unfold expression Frame.child Parser.start
  dsimp only
  rw [read, Parser.span_movedTo here]

theorem declaration_of_modifier (modifier : p.kind.isModifier = true) :
    declaration inner (p.movedTo x) = declaration inner p := by
  have here : p.kind ≠ .eof := fun eof => by rw [eof] at modifier; cases modifier
  have loops : ((p.movedTo x).start .variableDeclaration).bumpWhile (some .modifier)
      Kind.isModifier = (p.start .variableDeclaration).bumpWhile (some .modifier)
        Kind.isModifier := by
    refine Frame.loop_congr ?_ rfl
    show (if p.kind.isModifier then _ else _) = if p.kind.isModifier then _ else _
    rw [if_pos modifier, if_pos modifier, Frame.bump_movedTo here]
  unfold declaration
  rw [loops]
  rfl

/-- Without modifiers a declaration begins with its type. -/
theorem declaration_of_type (name : p.kind = .identifier)
    (typed : p.second.1 = .identifier ∨ p.second.1 = .kwArray) :
    declaration inner (p.movedTo x) = declaration inner p := by
  have plain : p.kind.isModifier = false := by rw [name]; rfl
  have none : ∀ y, ((p.movedTo y).start .variableDeclaration).bumpWhile (some .modifier)
      Kind.isModifier = (p.movedTo y).start .variableDeclaration :=
    fun y => Frame.bumpWhile_of_not (f := (p.movedTo y).start _) _ Kind.isModifier plain
  have type : ∀ y, declaredType false ((p.movedTo y).start .variableDeclaration) =
      ((p.start .variableDeclaration).bump (some .type)).bumpWhile (some .modifier)
        (· = .kwArray) := by
    intro y
    rw [declaredType_typed false (f := (p.movedTo y).start _) name
      (by rw [← p.second_movedTo y] at typed; exact typed),
      Frame.bump_movedTo (by rw [name]; decide)]
  have kind : ∀ y, (p.movedTo y).kind.isModifier = false := fun _ => plain
  show _ = declaration inner (p.movedTo p.lastEnd)
  unfold declaration
  simp only [none, kind, type]

/-- A statement begins anew with its first token. -/
theorem statement_movedTo (anew : inner.BeginsAnew) (noticed : p.endNoticedAt = some z)
    (starts : p.kind.canStartStatement = true) :
    statement inner (p.movedTo x) = statement inner p := by
  have here := Kind.ne_eof_of_canStartStatement starts
  have bump : ∀ k role, ((p.movedTo x).start k).bump role = (p.start k).bump role :=
    Frame.bump_movedTo here
  have second : p.second = (p.second.1, p) := Prod.ext rfl (Parser.second_of_noticed noticed)
  have second' : (p.movedTo x).second = (p.second.1, p.movedTo x) :=
    Prod.ext (p.second_movedTo x) (Parser.second_of_noticed (p := p.movedTo x) noticed)
  unfold statement
  rw [second, second', show (p.movedTo x).kind = p.kind from rfl]
  cases kind : p.kind
  case kwLocal | kwConstant | kwArray => exact declaration_of_modifier (by rw [kind]; rfl)
  case identifier =>
    dsimp only
    split
    · next typed => exact declaration_of_type kind typed
    · exact expression_movedTo anew (by rw [kind]; rfl)
  case kwFunction =>
    dsimp only
    split
    · unfold functionDefinition
      rw [bump]
    · exact expression_movedTo anew (by rw [kind]; rfl)
  case kwGlobals | kwLoop | kwDo => simp only [simpleBlock, bump]
  case kwStruct => simp only [struct, bump]
  case kwWhile => simp only [whileLoop, bump]
  case kwRepeat => simp only [repeatLoop, bump]
  case kwIf => simp only [conditional, branch, bump]
  case kwReturn => simp only [returnStatement, bump]
  case kwBreak | semicolon => simp only [single, bump]
  all_goals
    refine expression_movedTo anew ?_
    rw [kind] at starts ⊢
    exact starts

end Statement

/-! ## Programs -/

namespace Program

/-- What the finished program tells of the text: its children and its errors. -/
def outcome (f : Frame) : List Tree × List ParseError :=
  ((finish f).children, f.parser.errors.toList)

theorem outcome_eq (f : Frame) : outcome f =
    (f.children.toList ++ f.parser.pending ++ f.parser.trailing, f.parser.errors.toList) := by
  simp [outcome, finish, Tree.children, Frame.flush]

theorem step_movedTo (anew : inner.BeginsAnew) (noticed : p.endNoticedAt = some z)
    (here : p.kind ≠ .eof) (k : NodeKind) :
    step inner ((p.movedTo x).start k) = step inner (p.start k) := by
  unfold step
  dsimp only
  rw [show ((p.movedTo x).start k).current = p.kind from rfl,
    show (p.start k).current = p.kind from rfl, if_neg here, if_neg here,
    Frame.skip_movedTo here]
  split
  · next starts =>
    unfold Frame.child Parser.start
    dsimp only
    rw [Statement.statement_movedTo anew noticed starts, Parser.span_movedTo here]
  · rfl

/-- A program is the same wherever the text in front of it ended. -/
theorem outcome_movedTo (anew : inner.BeginsAnew) (noticed : p.endNoticedAt = some z) :
    outcome (((p.movedTo x).start .program).loop (step inner)) =
      outcome ((p.start .program).loop (step inner)) := by
  by_cases here : p.kind = .eof
  · have nothing : ∀ q : Parser, q.kind = .eof →
        (q.start .program).loop (step inner) = q.start .program := by
      intro q eof
      have stop : step inner (q.start .program) = (q.start .program, false) := if_pos eof
      rw [Frame.loop_of_stop (congrArg Prod.snd stop), stop]
    rw [nothing _ here, nothing (p.movedTo x) here]
    rfl
  · have first : step inner ((p.movedTo x).start .program) = step inner (p.start .program) :=
      step_movedTo anew noticed here .program
    rw [Frame.loop_congr first rfl]

end Program

end JassSyntax
