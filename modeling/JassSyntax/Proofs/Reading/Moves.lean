import JassSyntax.Grammar.Program

/-!
# What the moves of a frame do

One statement for each operation of a parser and of a frame that has cases. Later proofs use these
and do not open the operations.
-/

namespace JassSyntax

namespace Kind

variable {k : Kind} {own : Nat} {side : Associativity}

theorem startsArguments_cases (h : k.startsArguments = true) :
    k = .lParen ∨ k = .stringStart ∨ k = .lBrace := by
  unfold startsArguments at h
  split at h
  · exact .inl rfl
  · exact .inr (.inl rfl)
  · exact .inr (.inr rfl)
  · cases h

theorem ne_eof_of_canStartExpression (starts : k.canStartExpression = true) : k ≠ .eof := by
  rintro rfl
  cases starts

theorem ne_eof_of_canStartStatement (starts : k.canStartStatement = true) : k ≠ .eof := by
  rintro rfl
  cases starts

theorem ne_eof_of_isUnary (unary : k.isUnary = true) : k ≠ .eof := by
  rintro rfl
  cases unary

theorem ne_eof_of_startsArguments (starts : k.startsArguments = true) : k ≠ .eof := by
  rintro rfl
  cases starts

theorem ne_eof_of_isStray (stray : k.isStray = true) : k ≠ .eof := by
  rintro rfl
  cases stray

theorem ne_eof_of_separator (separates : k = .comma ∨ k = .semicolon) : k ≠ .eof := by
  rcases separates with rfl | rfl <;> decide

theorem ne_eof_of_binary? (op : k.binary? = some (own, side)) : k ≠ .eof := by
  rintro rfl
  cases op

/-- Operators of one power associate to one side. -/
theorem side_of_binary? (h : k.binary? = some (own, side)) :
    side = if own ∈ [2, 7, 11] then .right else .left := by
  unfold binary? at h
  split at h <;> cases h <;> rfl

theorem eq_comma_of_binary? (h : k.binary? = some (own, side)) (loose : own < Power.assignment) :
    k = .comma := by
  unfold binary? at h
  split at h <;> cases h <;> first | rfl | exact absurd loose (by decide)

/-- No operator between operands binds as tightly as those before their operand. -/
theorem ne_unary_of_binary? (h : k.binary? = some (own, side)) : own ≠ Power.unary := by
  unfold binary? at h
  split at h <;> cases h <;> decide

theorem comma_le_of_binary? (h : k.binary? = some (own, side)) : Power.comma ≤ own := by
  unfold binary? at h
  split at h <;> cases h <;> decide

theorem rightPower_le_eleven_of_binary? (h : k.binary? = some (own, side)) :
    Expression.rightPower own side ≤ 11 := by
  unfold binary? at h
  split at h <;> cases h <;> decide

theorem le_eleven_of_binary? (h : k.binary? = some (own, side)) : own ≤ 11 := by
  unfold binary? at h
  split at h <;> cases h <;> decide

end Kind

theorem NodeKind.isClosingKeyword_of_closer {k : NodeKind} {closer : Kind}
    (h : k.closer = some closer) : closer.isClosingKeyword = true := by
  revert h
  cases k <;> (rintro ⟨⟩ <;> rfl)

namespace Parser

theorem second_cases (p : Parser) :
    (∃ next, p.ahead.tail.head? = some next ∧ p.second = (next.token.kind, p)) ∨
      p.ahead.tail.head? = none ∧ p.second = (.eof, p.noticeEnd) := by
  unfold second
  cases p.ahead.tail.head? with
  | some next => exact .inl ⟨next, rfl, rfl⟩
  | none => exact .inr ⟨rfl, rfl⟩

/-- A look at the second token at most notices the end. -/
theorem second_looked (p : Parser) : p.second.2 = p ∨ p.second.2 = p.noticeEnd := by
  rcases p.second_cases with ⟨next, _, h⟩ | ⟨_, h⟩
  · exact .inl (by rw [h])
  · exact .inr (by rw [h])

theorem kind_second (p : Parser) : p.second.2.kind = p.kind := by
  rcases p.second_looked with h | h <;> rw [h]
  rfl

theorem errors_complainAt (p : Parser) (span : Span) (c : Complaint) :
    (p.complainAt span c).errors ≠ #[] := by
  simp [complainAt]

/-- A complaint does not change what lies ahead. -/
theorem second_complainAt (p : Parser) (span : Span) (c : Complaint) :
    (p.complainAt span c).second = (p.second.1, p.second.2.complainAt span c) := by
  have next : (p.complainAt span c).ahead.tail.head? = p.ahead.tail.head? := rfl
  unfold second
  rw [next]
  cases p.ahead.tail.head? <;> rfl

theorem second_noticeEnd (p : Parser) : p.noticeEnd.second.1 = p.second.1 := by
  have next : p.noticeEnd.ahead.tail.head? = p.ahead.tail.head? := rfl
  unfold second
  rw [next]
  cases p.ahead.tail.head? <;> rfl

theorem second_second (p : Parser) : p.second.2.second.1 = p.second.1 := by
  rcases p.second_looked with h | h <;> rw [h]
  exact p.second_noticeEnd

/-- A look at a token that is there changes nothing. -/
theorem second_of_ne_eof {p : Parser} (h : p.second.1 ≠ .eof) : p.second.2 = p := by
  rcases p.second_cases with ⟨next, _, e⟩ | ⟨_, e⟩
  · rw [e]
  · rw [e] at h
    exact absurd rfl h

/-- Noticing the end does not move the current token. -/
theorem span_noticeEnd (p : Parser) : p.noticeEnd.span = p.span := by
  simp [span, noticeEnd, endSpan]

theorem head_of_kind {p : Parser} {k : Kind} (h : p.kind = k) (hk : k ≠ .eof) :
    ∃ item, p.ahead.head? = some item ∧ item.token.kind = k := by
  unfold kind at h
  split at h
  · exact ⟨_, by assumption, h⟩
  · exact absurd h.symm hk

end Parser

namespace Frame

theorem second_eq (f : Frame) :
    f.second = (f.parser.second.1, { f with parser := f.parser.second.2 }) := rfl

theorem bump_eq {f : Frame} {item : Item} (h : f.parser.ahead.head? = some item)
    (role : Option Role) :
    f.bump role =
      { f with
        children := (f.children ++ f.parser.pending ++ item.comments).push (.token role item.token)
        parser := { f.parser.advance item with pending := [] } } := by
  unfold bump flush
  simp only [h]
  rfl

theorem bump_of_none {f : Frame} (h : f.parser.ahead.head? = none) (role : Option Role) :
    f.bump role = f.flush := by
  have same : f.flush.parser.ahead.head? = none := h
  unfold bump
  simp only [same]

theorem children_flush (f : Frame) :
    f.flush.children.toList = f.children.toList ++ f.parser.pending := by
  simp [flush]

theorem children_attach (f : Frame) (role : Option Role) (t : Tree) :
    (f.attach role t).children.toList =
      f.children.toList ++ f.parser.pending ++ [t.withRole role] := by
  simp [attach, flush]

theorem children_bump {f : Frame} {item : Item} (h : f.parser.ahead.head? = some item)
    (role : Option Role) : (f.bump role).children.toList =
      f.children.toList ++ f.parser.pending ++ item.comments ++ [.token role item.token] := by
  simp [bump_eq h]

theorem pending_bump (f : Frame) (role : Option Role) : (f.bump role).parser.pending = [] := by
  unfold bump
  dsimp only
  split <;> rfl

theorem errors_bump (f : Frame) (role : Option Role) :
    (f.bump role).parser.errors = f.parser.errors := by
  unfold bump
  dsimp only
  split <;> rfl

theorem errors_skipAsError (f : Frame) : f.skipAsError.parser.errors = f.parser.errors :=
  errors_bump (f.parser.start .error) none

theorem ahead_bump (f : Frame) (role : Option Role) :
    (f.bump role).parser.ahead.toList = f.parser.ahead.toList.tail := by
  cases head : f.parser.ahead.head? with
  | some item =>
      rw [bump_eq head]
      rfl
  | none =>
      have empty : f.parser.ahead.toList = [] := List.head?_eq_none_iff.mp head
      rw [bump_of_none head]
      show f.parser.ahead.toList = _
      rw [empty, List.tail_nil]

theorem ahead_bumps (f : Frame) (n : Nat) :
    (f.bumps n).parser.ahead.toList = f.parser.ahead.toList.drop n := by
  induction n generalizing f with
  | zero => rfl
  | succ n ih => rw [bumps, ih, ahead_bump, List.drop_tail]

theorem errors_bumps (f : Frame) (n : Nat) :
    (f.bumps n).parser.errors = f.parser.errors := by
  induction n generalizing f with
  | zero => rfl
  | succ n ih => rw [bumps, ih, errors_bump]

theorem kind_bump (f : Frame) (role : Option Role) : (f.bump role).kind = f.kind := by
  unfold bump
  dsimp only
  split <;> rfl

theorem kind_bumps (f : Frame) (n : Nat) : (f.bumps n).kind = f.kind := by
  induction n generalizing f with
  | zero => rfl
  | succ n ih => rw [bumps, ih, kind_bump]

/-- Behind a token that is taken stands the one after it. -/
theorem current_bump {f : Frame} (here : f.current ≠ .eof) (role : Option Role) :
    (f.bump role).current = f.parser.second.1 := by
  obtain ⟨item, head, _⟩ := Parser.head_of_kind rfl here
  have ahead : (f.bump role).parser.ahead = f.parser.ahead.tail := by
    rw [bump_eq head]
    rfl
  rw [current, Parser.kind, ahead]
  rcases f.parser.second_cases with ⟨next, tail, e⟩ | ⟨tail, e⟩ <;> rw [e, tail]

theorem current_skipAsError {f : Frame} (here : f.current ≠ .eof) :
    f.skipAsError.current = f.parser.second.1 :=
  current_bump (f := f.parser.start .error) here none

/-- A loop is its first round, and goes on from there. -/
theorem loop_eq (f : Frame) (step : Frame → Frame × Bool) : f.loop step =
    if (step f).1.parser.remaining < f.parser.remaining ∧ (step f).2 = true then
      (step f).1.loop step
    else (step f).1 := by
  unfold loop
  rw [Loop.run]

/-- A loop that stops at once. -/
theorem loop_of_stop {f : Frame} {step : Frame → Frame × Bool} (stop : (step f).2 = false) :
    f.loop step = (step f).1 := by
  rw [loop_eq]
  simp [stop]

/-- What every round keeps, a loop keeps. -/
theorem loop_keeps {I : Frame → Prop} {step : Frame → Frame × Bool} {f : Frame}
    (keeps : ∀ g, I g → I (step g).1) (first : I f) : I (f.loop step) :=
  Loop.run_rule (P := I) (Q := I) (fun g kept _ => keeps g kept) (fun g kept _ => keeps g kept)
    (fun g kept _ _ => keeps g kept) first

theorem bumpWhile_of_not {f : Frame} (role : Option Role) (passes : Kind → Bool)
    (h : passes f.current = false) : f.bumpWhile role passes = f := by
  unfold bumpWhile
  rw [loop_of_stop] <;> simp [h]

/-- Insisting on a token takes it, or skips one token before it, or puts a placeholder in. The last
two complain, and may have looked ahead. -/
theorem demand_cases (f : Frame) (wanted : Kind) (role : Option Role) (c : Complaint) :
    f.current = wanted ∧ f.demand wanted role c = (f.bump role, true) ∨
      f.current ≠ wanted ∧
        ∃ q, (q = f.parser ∨ q = f.parser.noticeEnd) ∧
          (f.current.isStray = true ∧ f.parser.second.1 = wanted ∧
              f.demand wanted role c =
                ({ f with parser := q.complainAt f.parser.span c }.skipAsError.bump role, true) ∨
            f.demand wanted role c =
              ({ f with parser := q.complainAt f.parser.span c }.insertMissing role wanted,
                false)) := by
  by_cases here : f.current = wanted
  · exact .inl ⟨here, by rw [demand, if_pos here]⟩
  refine .inr ⟨here, ?_⟩
  rw [demand, if_neg here]
  by_cases stray : f.current.isStray = true
  · have ahead : (f.complain c).second = (f.parser.second.1,
        { f with parser := f.parser.second.2.complainAt f.parser.span c }) := by
      show ((f.parser.complainAt f.parser.span c).second.1,
        { f with parser := (f.parser.complainAt f.parser.span c).second.2 }) = _
      rw [Parser.second_complainAt]
    refine ⟨f.parser.second.2, f.parser.second_looked, ?_⟩
    simp only [stray, if_true, ahead, true_and]
    by_cases next : f.parser.second.1 = wanted
    · exact .inl ⟨next, if_pos next⟩
    · exact .inr (if_neg next)
  · refine ⟨f.parser, .inl rfl, .inr ?_⟩
    simp only [stray, Bool.false_eq_true, if_false, false_and]
    rfl

/-- A look ahead does not move the current token. -/
theorem span_second (f : Frame) : f.second.2.parser.span = f.parser.span := by
  rw [second_eq]
  rcases f.parser.second_looked with h | h <;> rw [h]
  exact f.parser.span_noticeEnd

/-- Insisting on a token, with the look ahead before the complaint. -/
theorem demand_eq (f : Frame) (wanted : Kind) (role : Option Role) (c : Complaint) :
    f.demand wanted role c =
      if f.current = wanted then (f.bump role, true)
      else if f.current.isStray ∧ f.parser.second.1 = wanted then
        ((f.second.2.complain c).skipAsError.bump role, true)
      else (((if f.current.isStray then f.second.2 else f).complain c).insertMissing role wanted,
        false) := by
  have ahead : (f.complain c).second = (f.parser.second.1, f.second.2.complain c) := by
    show ((f.parser.complainAt f.parser.span c).second.1,
      { f with parser := (f.parser.complainAt f.parser.span c).second.2 }) = _
    rw [Parser.second_complainAt, complain, Parser.complain, span_second, second_eq]
  unfold demand
  by_cases stray : f.current.isStray = true <;> simp [stray, ahead]

theorem eat_cases (f : Frame) (kind : Kind) :
    f.current = kind ∧ f.eat kind = (f.bump, true) ∨
      f.current ≠ kind ∧ f.eat kind = (f, false) := by
  unfold eat
  by_cases here : f.current = kind
  · exact .inl ⟨here, if_pos here⟩
  · exact .inr ⟨here, if_neg here⟩

/-- The closer of a construct is taken, or a placeholder is put in. -/
theorem close_cases {f : Frame} {closer : Kind} (closes : f.kind.closer = some closer) :
    f.current = closer ∧ f.close = f.bump (some .closing) ∨
      f.current ≠ closer ∧ ∃ span, f.close =
        { f with parser := f.parser.complainAt span (.unclosed f.kind closer) }.insertMissing
          (some .closing) closer := by
  unfold close
  simp only [closes]
  by_cases here : f.current = closer
  · exact .inl ⟨here, if_pos here⟩
  · exact .inr ⟨here, _, if_neg here⟩

theorem kind_close (f : Frame) : f.close.kind = f.kind := by
  cases closes : f.kind.closer with
  | none =>
      unfold close
      rw [closes]
  | some closer =>
      rcases close_cases closes with ⟨_, h⟩ | ⟨_, span, h⟩ <;> rw [h]
      · exact f.kind_bump _
      · rfl

/-- The name before another name is a type. -/
theorem parameter_cases (p : Parser) :
    p.second.1 = .identifier ∧
        parameter p = (((p.start .parameter).bump (some .type)).bump (some .name)).finish ∨
      p.second.1 ≠ .identifier ∧ parameter p =
        ({ p.start .parameter with parser := p.second.2 }.bump (some .name)).finish := by
  unfold parameter
  rw [second_eq]
  dsimp only
  by_cases typed : p.second.1 = .identifier
  · have same : p.second.2 = p := Parser.second_of_ne_eof (by rw [typed]; decide)
    refine .inl ⟨typed, ?_⟩
    show (Frame.bump (if p.second.1 = Kind.identifier then
      Frame.bump { p.start .parameter with parser := p.second.2 } (some .type) else _) _).finish = _
    rw [if_pos typed, same]
    rfl
  · exact .inr ⟨typed, congrArg (fun f : Frame => (f.bump (some .name)).finish) (if_neg typed)⟩

/-- The node that `parameters` puts in. -/
def parameterList (p : Parser) : Tree × Parser :=
  let (g, opened) := (p.start .parameters).demand .lParen none (.unexpected .lParen)
  if opened then (g.parameterItems.expect .rParen).finish else g.finish

theorem parameters_eq (f : Frame) : f.parameters = f.child (some .parameters) parameterList := rfl

end Frame

namespace Expression

/-- One more item of a list, if a comma follows. -/
def listStep (inner : Level) (f : Frame) : Frame × Bool :=
  if f.current = .comma then (f.bump.child none (inner.binding (Power.comma + 1)), true)
  else (f, false)

theorem list_eq (inner : Level) (first : Tree) (p : Parser) : list inner first p =
    (((p.start .expressionList).attach none first).loop (listStep inner)).finish := rfl

/-- The node of an operation. -/
def joined (inner : Level) (own : Nat) (side : Associativity) (e : Tree × Parser) : Frame :=
  let kind : NodeKind := if e.2.kind = .equals then .assignmentExpression else .binaryExpression
  (((e.2.start kind).attach (some .left) e.1).bump (some .operator)).child (some .right)
    (inner.binding (rightPower own side))

/-- Operators that bind loosely are left alone, and the others make a list or an operation. -/
theorem join_cases (inner : Level) (power : Nat) (e : Tree × Parser) :
    (∀ own side, e.2.kind.binary? = some (own, side) → own < power) ∧
        join inner power e = (e, false) ∨
      ∃ own side, e.2.kind.binary? = some (own, side) ∧ power ≤ own ∧
        (e.2.kind = .comma ∧ join inner power e = (list inner e.1 e.2, true) ∨
          e.2.kind ≠ .comma ∧ join inner power e = ((joined inner own side e).finish, true)) := by
  unfold join
  cases op : e.2.kind.binary? with
  | none => exact .inl ⟨fun _ _ same => (by cases same), rfl⟩
  | some binding =>
      obtain ⟨own, side⟩ := binding
      dsimp only
      by_cases loose : own < power
      · rw [if_pos loose]
        refine .inl ⟨fun own' side' same => ?_, rfl⟩
        cases same
        exact loose
      rw [if_neg loose]
      refine .inr ⟨own, side, rfl, Nat.le_of_not_lt loose, ?_⟩
      by_cases comma : e.2.kind = .comma
      · rw [if_pos comma]
        exact .inl ⟨comma, rfl⟩
      · rw [if_neg comma]
        exact .inr ⟨comma, rfl⟩

end Expression

namespace Statement

/-- One more branch with a condition, if one follows. -/
def clauseStep (inner : Level) (f : Frame) : Frame × Bool :=
  if f.current = .kwElseIf then (f.child (some .alternative) (elseifClause inner), true)
  else (f, false)

theorem branches_eq (inner : Level) (f : Frame) : branches inner f =
    let f := (inner.body branchEnds f).loop (clauseStep inner)
    if f.current = .kwElse then f.child (some .alternative) (elseClause inner) else f := rfl

/-- One more member of a name, if one follows. -/
def memberStep (f : Frame) : Frame × Bool :=
  if f.current = .dot then (f.bump.expectName .name, true) else (f, false)

theorem qualifiers_eq (f : Frame) : qualifiers f =
    let f := f.loop memberStep
    if f.current = .colon then f.bump.expectName .method else f := rfl

/-- The node that `functionName` puts in for a name of several parts. -/
def qualifiedName (p : Parser) : Tree × Parser :=
  (qualifiers ((p.start .functionName).bump (some .base))).finish

theorem functionName_cases (f : Frame) :
    (f.parser.second.1 = .dot ∨ f.parser.second.1 = .colon) ∧
        functionName f = f.child (some .name) qualifiedName ∨
      ¬(f.parser.second.1 = .dot ∨ f.parser.second.1 = .colon) ∧
        functionName f = { f with parser := f.parser.second.2 }.expectName .name := by
  unfold functionName
  rw [Frame.second_eq]
  dsimp only
  by_cases several : f.parser.second.1 = Kind.dot ∨ f.parser.second.1 = Kind.colon
  · have same : f.parser.second.2 = f.parser :=
      Parser.second_of_ne_eof (by rcases several with h | h <;> rw [h] <;> decide)
    rw [if_pos several, same]
    exact .inl ⟨several, rfl⟩
  · rw [if_neg several]
    exact .inr ⟨several, rfl⟩

/-- A name before another name or before `array` is a type. -/
theorem declaredType_typed (modified : Bool) {f : Frame} (name : f.current = .identifier)
    (typed : f.parser.second.1 = .identifier ∨ f.parser.second.1 = .kwArray) :
    declaredType modified f =
      (f.bump (some .type)).bumpWhile (some .modifier) (· = .kwArray) := by
  have same : f.parser.second.2 = f.parser :=
    Parser.second_of_ne_eof (by rcases typed with h | h <;> rw [h] <;> decide)
  unfold declaredType
  rw [if_pos name, Frame.second_eq, same]
  exact if_pos typed

/-- After modifiers another name is what they declare. -/
theorem declaredType_untyped {f : Frame} (name : f.current = .identifier)
    (untyped : ¬(f.parser.second.1 = .identifier ∨ f.parser.second.1 = .kwArray)) :
    declaredType true f = { f with parser := f.parser.second.2 } := by
  have kind : f.parser.second.2.kind = .identifier := f.parser.kind_second.trans name
  unfold declaredType
  rw [if_pos name, Frame.second_eq]
  simp only [untyped, if_false]
  exact if_pos ⟨trivial, kind⟩

/-- A name that is no type is what modifiers declare. Without modifiers a type is insisted on. -/
theorem declaredType_cases (modified : Bool) (f : Frame) :
    (f.current = .identifier ∧ (f.parser.second.1 = .identifier ∨ f.parser.second.1 = .kwArray)) ∧
        declaredType modified f =
          (f.bump (some .type)).bumpWhile (some .modifier) (· = .kwArray) ∨
      ∃ q, (q = f.parser ∨ q = f.parser.noticeEnd) ∧
        (modified = true ∧ declaredType modified f = { f with parser := q } ∨
          declaredType modified f = { f with parser := q }.expectName .type) := by
  by_cases name : f.current = .identifier
  · by_cases typed : f.parser.second.1 = .identifier ∨ f.parser.second.1 = .kwArray
    · exact .inl ⟨⟨name, typed⟩, declaredType_typed modified name typed⟩
    · refine .inr ⟨f.parser.second.2, f.parser.second_looked, ?_⟩
      cases modified with
      | true => exact .inl ⟨rfl, declaredType_untyped name typed⟩
      | false =>
          unfold declaredType
          rw [if_pos name, Frame.second_eq]
          simp only [typed, if_false]
          exact .inr (if_neg fun h => by cases h.1)
  · refine .inr ⟨f.parser, .inl rfl, .inr ?_⟩
    unfold declaredType
    rw [if_neg name]
    simp [name]

theorem declarator_cases (inner : Level) (p : Parser) :
    let named := (p.start .declarator).expectName .name
    named.current = .equals ∧
        declarator inner p = (named.bump.child (some .value) inner.expression).finish ∨
      named.current ≠ .equals ∧ declarator inner p = named.finish := by
  intro named
  unfold declarator
  rcases named.eat_cases .equals with ⟨here, e⟩ | ⟨other, e⟩
  · rw [e]
    exact .inl ⟨here, rfl⟩
  · rw [e]
    exact .inr ⟨other, rfl⟩

theorem branchEnds_closing : ∀ k ∈ branchEnds, k.isClosingKeyword = true := by decide

end Statement

namespace Level

theorem complainTooDeep_cases (limit : Nat) (p : Parser) :
    complainTooDeep limit p = p ∨ complainTooDeep limit p = p.complain (.tooDeep limit) := by
  unfold complainTooDeep
  split
  · exact .inl rfl
  · exact .inr rfl

/-- Behind a complaint about nesting there is such an error. -/
theorem exists_tooDeep (limit : Nat) (p : Parser) :
    ∃ e ∈ (complainTooDeep limit p).errors.toList, e.kind = .nestingTooDeep := by
  unfold complainTooDeep
  split
  · next last =>
    obtain ⟨e, back, kind⟩ := (Option.any_eq_true _ _).mp last
    exact ⟨e, Array.mem_toList_iff.mpr (Array.mem_of_back? back), by simpa using kind⟩
  · exact ⟨_, by simp [Parser.complain, Parser.complainAt]; exact .inr rfl, rfl⟩

theorem errors_complainTooDeep (limit : Nat) (p : Parser) :
    (complainTooDeep limit p).errors ≠ #[] := by
  obtain ⟨e, mem, _⟩ := exists_tooDeep limit p
  intro none
  rw [none] at mem
  cases mem

theorem complainTooDeep_ahead (limit : Nat) (p : Parser) :
    (complainTooDeep limit p).ahead = p.ahead := by
  rcases complainTooDeep_cases limit p with h | h <;> rw [h]
  rfl

theorem complainTooDeep_pending (limit : Nat) (p : Parser) :
    (complainTooDeep limit p).pending = p.pending := by
  rcases complainTooDeep_cases limit p with h | h <;> rw [h]
  rfl

/-- A region beyond the limit is empty, or it becomes an error node of as many tokens as it has. -/
theorem skipTooDeep_cases (limit : Nat) (extent : Extent) (p : Parser) :
    regionLength extent 0 p.ahead.toList = 0 ∧
        skipTooDeep limit extent p = (none, complainTooDeep limit p) ∨
      ∃ n, regionLength extent 0 p.ahead.toList = n + 1 ∧
        skipTooDeep limit extent p =
          (some (((complainTooDeep limit p).start .error).bumps (n + 1)).finish.1,
            (((complainTooDeep limit p).start .error).bumps (n + 1)).finish.2) := by
  unfold skipTooDeep
  simp only [complainTooDeep_ahead]
  cases h : regionLength extent 0 p.ahead.toList with
  | zero => exact .inl ⟨rfl, rfl⟩
  | succ n => exact .inr ⟨n, rfl, rfl⟩

/-- A region that is not empty is ahead. -/
theorem ahead_of_regionLength {extent : Extent} {balance n : Nat} {items : List Item}
    (h : regionLength extent balance items = n + 1) : items ≠ [] := by
  rintro rfl
  rw [regionLength] at h
  cases h

/-- An operand beyond the limit. -/
theorem cutOff_binding_cases (limit power : Nat) (p : Parser) :
    regionLength .operand 0 p.ahead.toList = 0 ∧ (cutOff limit).binding power p =
        ((complainTooDeep limit p).missing .identifier, complainTooDeep limit p) ∨
      ∃ n, regionLength .operand 0 p.ahead.toList = n + 1 ∧ (cutOff limit).binding power p =
        (((complainTooDeep limit p).start .error).bumps (n + 1)).finish := by
  unfold cutOff
  dsimp only
  rcases skipTooDeep_cases limit .operand p with ⟨h, e⟩ | ⟨n, h, e⟩
  · exact .inl ⟨h, by rw [e]⟩
  · exact .inr ⟨n, h, by rw [e]⟩

/-- What ends a body: a kind that it has been told of, one that a body around it waits for, and the
end of input. -/
def EndsBody (terminators : List Kind) (f : Frame) : Prop :=
  f.current = .eof ∨ f.current ∈ terminators ∨ f.current ∈ f.parser.openClosers

instance (terminators : List Kind) (f : Frame) : Decidable (EndsBody terminators f) :=
  inferInstanceAs (Decidable (_ ∨ _ ∨ _))

/-- An empty region ends right before the current token. -/
theorem endsBody_of_regionLength {terminators : List Kind} {f : Frame}
    (h : regionLength (.upTo fun k => terminators.contains k || f.parser.closesOpenBlock k) 0
      f.parser.ahead.toList = 0) : EndsBody terminators f := by
  cases ahead : f.parser.ahead.toList with
  | nil =>
      refine .inl ?_
      rw [Frame.current, Parser.kind, Counted.head?, ahead]
      rfl
  | cons item items =>
      have current : f.current = item.token.kind := by
        rw [Frame.current, Parser.kind, Counted.head?, ahead]
        rfl
      rw [ahead, regionLength] at h
      dsimp only at h
      split at h
      · next ends =>
        have stop := ends.2
        simp only [Extent.endsBefore, Parser.closesOpenBlock, Bool.or_eq_true,
          List.contains_iff_mem] at stop
        exact .inr (current ▸ stop)
      · split at h <;> omega

/-- A body beyond the limit is empty, or it is a block of one error node. -/
theorem cutOff_body_cases (limit : Nat) (terminators : List Kind) (f : Frame) :
    EndsBody terminators f ∧
        (cutOff limit).body terminators f = { f with parser := complainTooDeep limit f.parser } ∨
      f.parser.ahead.toList ≠ [] ∧ ∃ n, (cutOff limit).body terminators f =
        f.child (some .body) fun p =>
          let (t, q) := (((complainTooDeep limit p).start .error).bumps (n + 1)).finish
          ((q.start .block).attach none t).finish := by
  unfold cutOff
  dsimp only
  rcases skipTooDeep_cases limit
      (.upTo fun k => terminators.contains k || f.parser.closesOpenBlock k) f.parser with
    ⟨empty, e⟩ | ⟨n, h, e⟩
  · exact .inl ⟨endsBody_of_regionLength empty, by rw [e]⟩
  · exact .inr ⟨ahead_of_regionLength h, n, by rw [e]; rfl⟩

/-- Within the limit the grammar itself reads, one level deeper. -/
theorem above_binding_cases (limit : Nat) (inner : Level) (power : Nat) (p : Parser) :
    limit ≤ p.depth ∧ (inner.above limit).binding power p = (cutOff limit).binding power p ∨
      p.depth < limit ∧ (inner.above limit).binding power p =
        ((Expression.binding inner power { p with depth := p.depth + 1 }).1,
          (Expression.binding inner power { p with depth := p.depth + 1 }).2.ascend) := by
  unfold above Parser.descend?
  by_cases h : p.depth < limit
  · exact .inr ⟨h, by simp only [h, if_true]⟩
  · exact .inl ⟨by omega, by simp only [h, if_false]⟩

theorem above_body_cases (limit : Nat) (inner : Level) (terminators : List Kind) (f : Frame) :
    limit ≤ f.parser.depth ∧
        (inner.above limit).body terminators f = (cutOff limit).body terminators f ∨
      f.parser.depth < limit ∧ (inner.above limit).body terminators f =
        let g := Statement.body inner terminators
          { f with parser := { f.parser with depth := f.parser.depth + 1 } }
        { g with parser := g.parser.ascend } := by
  unfold above Parser.descend?
  by_cases h : f.parser.depth < limit
  · exact .inr ⟨h, by simp only [h, if_true]⟩
  · exact .inl ⟨by omega, by simp only [h, if_false]⟩

end Level

end JassSyntax
