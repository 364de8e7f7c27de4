import JassSyntax.Proofs.Reading.Constructs

/-!
# Progress

A construct that begins with the current token uses it up. So does an expression or a statement
that the current token can begin, also beyond the nesting limit.
-/

namespace JassSyntax

namespace Parser

theorem remaining_advance_lt {p : Parser} {item : Item} (h : p.ahead.head? = some item) :
    (p.advance item).remaining < p.remaining :=
  Counted.length_tail_lt h

theorem remaining_second (p : Parser) : p.second.2.remaining = p.remaining := by
  rcases p.second_looked with h | h <;> rw [h]
  rfl

end Parser

theorem Frame.remaining_bump_lt {f : Frame} {role : Option Role} (h : f.current ≠ .eof) :
    (f.bump role).parser.remaining < f.parser.remaining := by
  obtain ⟨item, here, _⟩ := Parser.head_of_kind rfl h
  rw [bump_eq here]
  exact Parser.remaining_advance_lt here

theorem Grows.remaining_lt {f g : Frame} {role : Option Role} (grown : Grows (f.bump role) g)
    (h : f.current ≠ .eof) : g.parser.remaining < f.parser.remaining :=
  Nat.lt_of_le_of_lt grown.later.remaining_le (Frame.remaining_bump_lt h)

theorem Begins.remaining_lt {p : Parser} {r : Tree × Parser} (begins : Begins p r)
    (h : p.kind ≠ .eof) : r.2.remaining < p.remaining := by
  obtain ⟨kind, role, f, _, grown, rfl⟩ := begins
  exact grown.remaining_lt (f := p.start kind) h

/-- An expression that can begin does begin. -/
structure Level.Progresses (inner : Level) : Prop where
  traced : inner.Traced
  binding : ∀ power p, p.kind.canStartExpression = true →
    (inner.binding power p).2.remaining < p.remaining

variable {inner : Level}

namespace Expression

theorem primary_remaining_lt (traced : inner.Traced) {p : Parser}
    (starts : p.kind.canStartExpression = true) (plain : p.kind.isUnary = false) :
    (primary inner p).parser.remaining < p.remaining := by
  have here := Kind.ne_eof_of_canStartExpression starts
  have leaf : p.takeLeaf.2.remaining < p.remaining := by
    obtain ⟨item, head, _⟩ := Parser.head_of_kind rfl here
    simp only [Parser.takeLeaf, head]
    exact Parser.remaining_advance_lt head
  unfold primary
  split
  · exact leaf
  · exact leaf
  · exact leaf
  · exact (string_begins p).remaining_lt here
  · exact (table_begins traced p).remaining_lt here
  · exact (parenthesized_begins traced p).remaining_lt here
  · exact (function_begins traced p).remaining_lt here
  · cases k : p.kind <;> simp_all [Kind.canStartExpression, Kind.isUnary]

theorem extended_remaining_le (traced : inner.Traced) (e : Operand) :
    (extended inner e).2.remaining ≤ e.parser.remaining :=
  (extended_later traced e).remaining_le

theorem operand_remaining_lt (traced : inner.Traced) {p : Parser}
    (starts : p.kind.canStartExpression = true) : (operand inner p).2.remaining < p.remaining := by
  have here := Kind.ne_eof_of_canStartExpression starts
  unfold operand operandFrom
  split
  · exact (unary_begins traced p).remaining_lt here
  · next plain =>
    -- No kind begins an expression and is stray, so the operand is no error.
    have steady : ¬ (p.kind.isStray = true ∧ (!p.kind.isClosingBracket) = true) := by
      cases k : p.kind <;> simp_all [Kind.canStartExpression, Kind.isStray]
    refine Nat.lt_of_le_of_lt (extended_remaining_le traced _) ?_
    rw [primaryOrStray, if_neg steady]
    exact primary_remaining_lt traced starts (by simpa using plain)

theorem binding_remaining_lt (traced : inner.Traced) (power : Nat) {p : Parser}
    (starts : p.kind.canStartExpression = true) :
    (binding inner power p).2.remaining < p.remaining := by
  have rounds : (binding inner power p).2.remaining ≤ (operand inner p).2.remaining :=
    Loop.run_related (R := fun a b : Tree × Parser => b.2.remaining ≤ a.2.remaining)
      (fun first second => Nat.le_trans second first)
      (fun e => (join_wraps traced power e).later.remaining_le) _
  exact Nat.lt_of_le_of_lt rounds (operand_remaining_lt traced starts)

/-- Joining another operand uses up the operator. -/
theorem join_remaining_lt (traced : inner.Traced) {power : Nat} {e : Tree × Parser}
    (goes : (join inner power e).2 = true) :
    (join inner power e).1.2.remaining < e.2.remaining := by
  rcases join_cases inner power e with ⟨_, h⟩ | ⟨own, side, op, _, h⟩
  · rw [h] at goes
    cases goes
  have here := Kind.ne_eof_of_binary? op
  rcases h with ⟨comma, h⟩ | ⟨_, h⟩ <;> rw [h]
  -- A list goes through at least one round, which takes the comma.
  · let f := (e.2.start .expressionList).attach none e.1
    have first := Grows.loop_first (listStep_grows traced) f
    have bumped : Grows f.bump (listStep inner f).1 := by
      unfold listStep
      rw [if_pos (by exact comma)]
      exact (Grows.refl _).child (traced.binding _ _)
    exact (bumped.trans first).remaining_lt here
  · let kind : NodeKind := if e.2.kind = .equals then .assignmentExpression else .binaryExpression
    have grown : Grows (((e.2.start kind).attach (some .left) e.1).bump (some .operator))
        (joined inner own side e) := (Grows.refl _).child (traced.binding _ _)
    exact grown.remaining_lt here

end Expression

namespace Level

theorem regionLength_pos {p : Parser} (starts : p.kind.canStartExpression = true) :
    0 < regionLength .operand 0 p.ahead.toList := by
  have here := Kind.ne_eof_of_canStartExpression starts
  obtain ⟨item, head, kind⟩ := Parser.head_of_kind rfl here
  obtain ⟨rest, ahead⟩ := List.head?_eq_some_iff.mp head
  rw [← kind] at starts
  rw [ahead, regionLength]
  simp only [Extent.endsBefore, starts]
  split
  · next h => simp at h
  · split <;> omega

theorem cutOff_progresses (limit : Nat) : (cutOff limit).Progresses where
  traced := cutOff_traced limit
  binding power p starts := by
    have same : (complainTooDeep limit p).kind = p.kind ∧
        (complainTooDeep limit p).remaining = p.remaining := by
      rcases complainTooDeep_cases limit p with h | h <;> rw [h] <;> exact ⟨rfl, rfl⟩
    have here : (complainTooDeep limit p).kind ≠ .eof := by
      rw [same.1]
      exact Kind.ne_eof_of_canStartExpression starts
    rcases cutOff_binding_cases limit power p with ⟨none, _⟩ | ⟨n, _, h⟩
    · exact absurd none (Nat.pos_iff_ne_zero.mp (regionLength_pos starts))
    · have first : Grows ((complainTooDeep limit p).start .error).bump
          (((complainTooDeep limit p).start .error).bumps (n + 1)) := (Grows.refl _).bumps
      rw [h, ← same.2]
      exact first.remaining_lt (f := (complainTooDeep limit p).start .error) here

theorem above_progresses (limit : Nat) (h : inner.Progresses) : (inner.above limit).Progresses where
  traced := above_traced limit h.traced
  binding power p starts := by
    rcases above_binding_cases limit inner power p with ⟨_, e⟩ | ⟨_, e⟩ <;> rw [e]
    · exact (cutOff_progresses limit).binding power p starts
    · exact Expression.binding_remaining_lt h.traced power
        (p := { p with depth := p.depth + 1 }) starts

theorem stack_progresses (limit room : Nat) : (stack limit room).Progresses := by
  induction room with
  | zero => exact cutOff_progresses limit
  | succ room ih => exact above_progresses limit ih

end Level

namespace Statement

theorem declaration_remaining_lt (traced : inner.Traced) {p : Parser}
    (h : p.kind.isModifier = true ∨
      p.kind = .identifier ∧ (p.second.1 = .identifier ∨ p.second.1 = .kwArray)) :
    (declaration inner p).2.remaining < p.remaining := by
  have rest : ∀ f : Frame, Grows f (f.commaSeparated fun f =>
      f.child (some .declarator) (declarator inner)) := fun f =>
    (Grows.refl f).commaSeparated fun g => (Grows.refl g).child (declarator_reads traced _)
  rcases h with modifier | ⟨name, typed⟩
  · have here : p.kind ≠ .eof := fun h => by rw [h] at modifier; cases modifier
    have first := Grows.bumpWhile_first (f := p.start .variableDeclaration) (some .modifier)
      Kind.isModifier modifier
    exact ((first.trans (declaredType_grows _ _)).trans (rest _)).remaining_lt
      (f := p.start .variableDeclaration) here
  -- Without modifiers it is the type that is used up.
  · have here : p.kind ≠ .eof := by rw [name]; decide
    have plain : p.kind.isModifier = false := by rw [name]; rfl
    have none := Frame.bumpWhile_of_not (f := p.start .variableDeclaration) (some .modifier)
      Kind.isModifier plain
    have type := declaredType_typed false (f := p.start .variableDeclaration) name typed
    unfold declaration
    rw [none, plain]
    dsimp only
    rw [type]
    exact (((Grows.refl _).bumpWhile).trans (rest _)).remaining_lt
      (f := p.start .variableDeclaration) here

theorem expression_remaining_lt (h : inner.Progresses) {p : Parser}
    (starts : p.kind.canStartExpression = true) :
    (expression inner p).2.remaining < p.remaining :=
  h.binding _ p starts

theorem statement_remaining_lt (h : inner.Progresses) {p : Parser}
    (starts : p.kind.canStartStatement = true) :
    (statement inner p).2.remaining < p.remaining := by
  have here := Kind.ne_eof_of_canStartStatement starts
  have traced := h.traced
  unfold statement
  split
  · next k => exact declaration_remaining_lt traced (.inl (by rw [k]; rfl))
  · next k => exact declaration_remaining_lt traced (.inl (by rw [k]; rfl))
  · next k => exact declaration_remaining_lt traced (.inl (by rw [k]; rfl))
  · next k =>
    dsimp only
    split
    · next typed =>
      rw [Parser.second_of_ne_eof (by rcases typed with h | h <;> rw [h] <;> decide)]
      exact declaration_remaining_lt traced (.inr ⟨k, typed⟩)
    · rw [← p.remaining_second]
      exact expression_remaining_lt h (by rw [p.kind_second, k]; rfl)
  · exact (simpleBlock_begins traced rfl p).remaining_lt here
  · exact (struct_begins traced p).remaining_lt here
  · exact (simpleBlock_begins traced rfl p).remaining_lt here
  · exact (simpleBlock_begins traced rfl p).remaining_lt here
  · exact (whileLoop_begins traced p).remaining_lt here
  · exact (repeatLoop_begins traced p).remaining_lt here
  · exact (conditional_begins traced p).remaining_lt here
  · next k =>
    dsimp only
    split
    · rw [← p.remaining_second]
      exact (functionDefinition_begins traced _).remaining_lt (by rw [p.kind_second]; exact here)
    · rw [← p.remaining_second]
      exact expression_remaining_lt h (by rw [p.kind_second, k]; rfl)
  · exact (returnStatement_begins traced p).remaining_lt here
  · exact (single_begins rfl p).remaining_lt here
  · exact (single_begins rfl p).remaining_lt here
  · refine expression_remaining_lt h ?_
    cases k : p.kind <;> simp_all [Kind.canStartStatement]

end Statement

theorem Frame.remaining_skipAsError_lt {f : Frame} (h : f.current ≠ .eof) :
    f.skipAsError.parser.remaining < f.parser.remaining :=
  remaining_bump_lt (f := f.parser.start .error) h

namespace Program

theorem step_remaining_lt (h : inner.Progresses) {f : Frame} (goes : (step inner f).2 = true) :
    (step inner f).1.parser.remaining < f.parser.remaining := by
  unfold step at goes ⊢
  dsimp only at goes ⊢
  split at goes
  · cases goes
  · next here =>
    rw [if_neg here]
    split
    · next starts => exact Statement.statement_remaining_lt h starts
    · exact Frame.remaining_skipAsError_lt (f := f.complain .strayAtTopLevel) here

end Program

end JassSyntax
