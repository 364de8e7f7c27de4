import JassSyntax.Proofs.Writing.Parts

/-!
# Reading written expressions

An operand is read from its innermost base outwards and an operation from its leftmost operand
rightwards, both in loops. So what is proved of an expression is that reading it is reading on from
it: the loop over it is the loop from where it ends.
-/

namespace JassSyntax

open JassSyntax.Tree Abstract

variable {inner : Level} {d : Nat} {rest : List Token} {p : Parser}

/-- The operand is the expression, places aside. -/
structure Operand.Shows (e : Expr) (d : Nat) (rest : List Token) (x : Operand) : Prop where
  tree : x.tree.bare = e.tree
  extensible : x.extensible = e.isBase
  parser : x.parser.At d rest

namespace Expression

/-! ## Operands -/

/-- To read the operand is to read on from its end. -/
def ReadsOperand (inner : Level) (d : Nat) (e : Expr) : Prop :=
  ∀ p rest, p.At d (e.tree.leaves ++ rest) →
    ∃ x : Operand, x.Shows e d rest ∧ extended inner (primary inner p) = extended inner x

/-- One round of the loop. -/
theorem extended_step {x y : Operand} {ws : List Token} (goes : extend inner x = (y, true))
    (before : x.parser.At d ws) (after : y.parser.At d rest) (shorter : rest.length < ws.length) :
    extended inner x = extended inner y := by
  unfold extended
  rw [Loop.run_eq]
  · rw [goes]
    rfl
  · intro _
    rw [goes]
    show y.parser.remaining < x.parser.remaining
    rw [before.remaining, after.remaining]
    exact shorter

theorem extend_of_not_suffix {x : Operand} (ended : x.parser.kind.isSuffix = false) :
    extend inner x = (x, false) := by
  have other : ∀ k : Kind, k.isSuffix = true → x.parser.kind ≠ k := by
    rintro k suffix rfl
    rw [suffix] at ended
    cases ended
  unfold extend
  split
  · exact absurd (by assumption) (other .dot rfl)
  · exact absurd (by assumption) (other .lBracket rfl)
  · exact absurd (by assumption) (other .colon rfl)
  · exact absurd (by assumption) (other .plusPlus rfl)
  · exact absurd (by assumption) (other .minusMinus rfl)
  · refine if_neg ?_
    intro arguments
    exact other _ (Kind.suffix_of_startsArguments arguments) rfl
  · rfl

/-- The loop ends before what is no suffix. -/
theorem extended_stop {x : Operand} (ended : x.parser.kind.isSuffix = false) :
    extended inner x = (x.tree, x.parser) := by
  have stop : extend inner x = (x, false) := extend_of_not_suffix ended
  unfold extended
  rw [Loop.run_eq]
  · rw [stop]
    rfl
  · intro goes
    rw [stop] at goes
    cases goes

theorem base_holds {e : Expr} {x : Operand} (stands : x.Shows e d rest) (k : NodeKind) :
    (x.base k).Holds k [e.tree.withRole (some .base)] d rest := by
  have based := (stands.parser.start k).attach (some .base) x.tree
  rw [stands.tree] at based
  exact based

/-- One more suffix, if one round of the loop reads it. -/
theorem suffix_operand {base e : Expr} (reads : ReadsOperand inner d base) (u : Token)
    (us : List Token) (words : e.tree.leaves = base.tree.leaves ++ u :: us)
    (round : ∀ x rest, x.Shows base d (u :: us ++ rest) →
      ∃ f : Frame, extend inner x = (.ofFrame f e.isBase, true) ∧ Found e.tree d rest f.finish) :
    ReadsOperand inner d e := by
  intro p rest h
  rw [words, List.append_assoc] at h
  obtain ⟨x, stands, same⟩ := reads p _ h
  obtain ⟨f, goes, found⟩ := round x rest stands
  refine ⟨.ofFrame f e.isBase, ⟨found.tree, rfl, found.parser⟩, ?_⟩
  rw [same]
  refine extended_step goes stands.parser found.parser ?_
  simp only [List.length_append, List.length_cons]
  omega

variable {base : Expr} (isBase : base.isBase = true) (reads : ReadsOperand inner d base)

include isBase reads

theorem member_operand (name : String) : ReadsOperand inner d (.member base name) := by
  refine suffix_operand reads (.spelled .dot) [.spelled .identifier name]
    (by simp [Expr.tree]) fun x rest stands => ?_
  have dot : x.parser.kind = .dot := stands.parser.kind
  have extensible : x.extensible = true := stands.extensible.trans isBase
  have read := ((base_holds stands .memberExpression).bump).expectName rfl .name
  refine ⟨(x.base .memberExpression).bump.expectName .name, ?_, ?_⟩
  · unfold extend
    rw [dot, extensible]
    rfl
  · rw [Expr.tree]
    exact read.finish

theorem index_operand {i : Expr} (finds : inner.Finds d Power.assignment i) :
    ReadsOperand inner d (.index base i) := by
  refine suffix_operand reads (.spelled .lBracket) (i.tree.leaves ++ [.spelled .rBracket])
    (by simp [Expr.tree]) fun x rest stands => ?_
  have bracket : x.parser.kind = .lBracket := stands.parser.kind
  have extensible : x.extensible = true := stands.extensible.trans isBase
  rw [List.cons_append, List.append_assoc] at stands
  have opened := (base_holds stands .indexExpression).bump
  have read := opened.child (some .index) (finds _ _ opened.parser rfl)
  refine ⟨((x.base .indexExpression).bump.child (some .index) inner.expression).expect .rBracket,
    ?_, ?_⟩
  · unfold extend
    rw [bracket, extensible]
    rfl
  · rw [Expr.tree]
    exact (read.expect _ rfl).finish

theorem call_operand {args : Arguments} (grouped : args.grouped = true)
    (finds : FindsArguments inner d args) : ReadsOperand inner d (.call base args) := by
  have begins := args.first_startsArguments []
  rw [List.append_nil] at begins
  cases words : args.tree.leaves with
  | nil =>
      rw [words] at begins
      cases begins
  | cons u us =>
      rw [words, firstKind_cons] at begins
      refine suffix_operand reads u us (by simp [Expr.tree, words])
        fun x rest stands => ?_
      have starts : x.parser.kind.startsArguments = true := by
        rw [stands.parser.kind]
        exact begins
      have extensible : x.extensible = true := stands.extensible.trans isBase
      rw [← words] at stands
      have opened := base_holds stands .functionCall
      have read := opened.child (some .args) (arguments_found grouped finds opened.parser)
      refine ⟨(x.base .functionCall).child (some .args) (arguments inner), ?_, ?_⟩
      · unfold extend
        rw [extensible]
        rcases Kind.startsArguments_cases starts with kind | kind | kind <;> rw [kind] <;> rfl
      · rw [Expr.tree]
        exact read.finish

theorem methodCall_operand (method : String) {args : Arguments} (grouped : args.grouped = true)
    (finds : FindsArguments inner d args) :
    ReadsOperand inner d (.methodCall base method args) := by
  refine suffix_operand reads (.spelled .colon)
    (.spelled .identifier method :: args.tree.leaves) (by simp [Expr.tree])
    fun x rest stands => ?_
  have colon : x.parser.kind = .colon := stands.parser.kind
  have extensible : x.extensible = true := stands.extensible.trans isBase
  have named := ((base_holds stands .functionCall).bump).expectName rfl .method
  have starts :
      ((x.base .functionCall).bump.expectName .method).current.startsArguments = true := by
    rw [named.current]
    exact args.first_startsArguments rest
  have read := named.child (some .args) (arguments_found grouped finds named.parser)
  refine ⟨methodCall inner (x.base .functionCall), ?_, ?_⟩
  · unfold extend
    rw [colon, extensible]
    rfl
  · rw [Expr.tree]
    unfold methodCall
    dsimp only
    rw [if_pos starts]
    exact read.finish

omit isBase in
theorem update_operand (op : Update) : ReadsOperand inner d (.update base op) := by
  refine suffix_operand reads (.spelled op.kind) [] (by simp [Expr.tree])
    fun x rest stands => ?_
  have kind : x.parser.kind = op.kind := stands.parser.kind
  have operand := (stands.parser.start .updateExpression).attach (some .operand) x.tree
  rw [stands.tree] at operand
  refine ⟨((x.parser.start .updateExpression).attach (some .operand) x.tree).bump (some .operator),
    ?_, ?_⟩
  · unfold extend
    rw [kind]
    cases op <;> rfl
  · rw [Expr.tree]
    exact (operand.bump (some .operator)).finish

omit isBase reads

/-- What begins an expression is read by its first word. -/
theorem primary_operand {e : Expr} (k : Kind) (read : Parser → Tree × Parser)
    (first : ∀ rest, firstKind (e.tree.leaves ++ rest) = k)
    (primary_eq : ∀ p : Parser, p.kind = k → primary inner p = ⟨(read p).1, e.isBase, (read p).2⟩)
    (found : ∀ p rest, p.At d (e.tree.leaves ++ rest) → Found e.tree d rest (read p)) :
    ReadsOperand inner d e := by
  intro p rest h
  refine ⟨primary inner p, ?_, rfl⟩
  rw [primary_eq p (h.kind.trans (first rest))]
  exact ⟨(found p rest h).tree, rfl, (found p rest h).parser⟩

theorem leaf_found {e : Expr} {kind : Kind} {text : String} (leaf : e.tree = word kind text) :
    ∀ (p : Parser) (rest : List Token), p.At d (e.tree.leaves ++ rest) →
      Found e.tree d rest p.takeLeaf := by
  intro p rest h
  rw [leaf, leaves_word] at h
  rw [leaf]
  exact h.takeLeaf

theorem name_operand (text : String) : ReadsOperand inner d (.name text) := by
  refine primary_operand .identifier Parser.takeLeaf (fun rest => by simp [Expr.tree])
    ?_ (leaf_found (by rw [Expr.tree]; rfl))
  intro p kind
  unfold primary
  rw [kind]
  rfl

theorem number_operand (text : String) : ReadsOperand inner d (.number text) := by
  refine primary_operand .number Parser.takeLeaf (fun rest => by simp [Expr.tree])
    ?_ (leaf_found (by rw [Expr.tree]))
  intro p kind
  unfold primary
  rw [kind]
  rfl

theorem float_operand (text : String) : ReadsOperand inner d (.float text) := by
  refine primary_operand .float Parser.takeLeaf (fun rest => by simp [Expr.tree])
    ?_ (leaf_found (by rw [Expr.tree]))
  intro p kind
  unfold primary
  rw [kind]
  rfl

theorem string_operand (s : Quoted) : ReadsOperand inner d (.string s) := by
  refine primary_operand .stringStart string (fun rest => by simp [Expr.tree, Quoted.tree])
    ?_ ?_
  · intro p kind
    unfold primary
    rw [kind]
    rfl
  · intro p rest h
    rw [Expr.tree] at h ⊢
    exact string_found s h

theorem table_operand {fields : Fields} (grouped : fields.grouped = true)
    (finds : FindsFields inner d fields) : ReadsOperand inner d (.table fields) := by
  refine primary_operand .lBrace (table inner) (fun rest => by simp [Expr.tree])
    ?_ (fun p rest h => table_found grouped finds h)
  intro p kind
  unfold primary
  rw [kind]
  rfl

theorem group_operand {e : Expr} (finds : inner.Finds d Power.comma e) :
    ReadsOperand inner d (.group e) := by
  refine primary_operand .lParen (parenthesized inner) (fun rest => by simp [Expr.tree])
    ?_ (fun p rest h => parenthesized_found finds h)
  intro p kind
  unfold primary
  rw [kind]
  rfl

theorem function_operand {ps : List Parameter} {ss : List Stmt} (body : inner.FindsBody d ss) :
    ReadsOperand inner d (.function ps ss) := by
  refine primary_operand .kwFunction (function inner) (fun rest => by simp [Expr.tree, closed])
    ?_ (fun p rest h => function_found body h)
  intro p kind
  unfold primary
  rw [kind]
  rfl

/-! ## Operations -/

/-- Reads on after a first operand. -/
def climb (inner : Level) (power : Nat) (left : Tree × Parser) : Tree × Parser :=
  Loop.run (fun e => e.2.remaining) (join inner power) left

theorem binding_eq (power : Nat) (p : Parser) :
    binding inner power p = climb inner power (operand inner p) := rfl

/-- How tightly an operator after the expression would have to bind to be read into it. -/
def tail : Expr → Nat
  | .list .. => Power.comma
  | .binary op .. => op.rightPower
  | .unary .. => Power.unary
  | _ => Power.closed

/-- To read the expression is to read on from its end. -/
def ReadsOperation (inner : Level) (d : Nat) (e : Expr) : Prop :=
  ∀ power p rest, e.fits power = true → p.At d (e.tree.leaves ++ rest) →
    (firstKind rest).continues (tail e) = false →
    ∃ r, Found e.tree d rest r ∧ binding inner power p = climb inner power r

theorem climb_stop {power : Nat} {r : Tree × Parser} (ended : r.2.kind.continues power = false) :
    climb inner power r = r := by
  have stop : join inner power r = (r, false) := by
    rcases join_cases inner power r with ⟨_, stop⟩ | ⟨own, side, binds, tight, _⟩
    · exact stop
    · exact absurd (Kind.lt_of_not_continues ended binds) (by omega)
  unfold climb
  rw [Loop.run_eq]
  · rw [stop]
    rfl
  · intro goes
    rw [stop] at goes
    cases goes

theorem climb_step {power : Nat} {x y : Tree × Parser} {ws : List Token}
    (goes : join inner power x = (y, true)) (before : x.2.At d ws) (after : y.2.At d rest)
    (shorter : rest.length < ws.length) : climb inner power x = climb inner power y := by
  unfold climb
  rw [Loop.run_eq]
  · rw [goes]
    rfl
  · intro _
    rw [goes]
    show y.2.remaining < x.2.remaining
    rw [before.remaining, after.remaining]
    exact shorter

theorem operand_of_primary (isPrimary : p.kind.isPrimary = true) :
    operand inner p = extended inner (primary inner p) := by
  have unary : p.kind.isUnary = false := by
    revert isPrimary
    cases p.kind <;> decide
  have stray : p.kind.isStray = false := by
    revert isPrimary
    cases p.kind <;> decide
  unfold operand operandFrom
  rw [if_neg (by rw [unary]; decide)]
  unfold primaryOrStray
  dsimp only
  rw [if_neg (by rw [stray]; rintro ⟨⟨⟩, _⟩)]

theorem closed_operation {e : Expr} (grouped : e.grouped = true) (closed : Power.closed ≤ e.power)
    (reads : ReadsOperand inner d e) : ReadsOperation inner d e := by
  intro power p rest _ h ended
  obtain ⟨x, stands, same⟩ := reads p rest h
  have isPrimary : p.kind.isPrimary = true := by
    rw [h.kind]
    exact Expr.first_isPrimary grouped rest closed
  -- No suffix follows, so the loop over suffixes ends here. What ends the loop over operators is
  -- left to whoever reads on.
  have stop : x.parser.kind.isSuffix = false := by
    rw [stands.parser.kind]
    exact Kind.not_suffix_of_not_continues ended
  refine ⟨(x.tree, x.parser), ⟨stands.tree, stands.parser⟩, ?_⟩
  rw [binding_eq, operand_of_primary isPrimary, same, extended_stop stop]

theorem unary_operation (op : UnaryOperator) {e : Expr} (finds : inner.Finds d Power.unary e) :
    ReadsOperation inner d (.unary op e) := by
  intro power p rest _ h ended
  have words : p.At d (.spelled op.kind :: (e.tree.leaves ++ rest)) := by
    simpa [Expr.tree] using h
  have opened := (words.start .unaryExpression).bump (some .operator)
  have read := opened.child (some .operand) (finds _ rest opened.parser ended)
  refine ⟨operand inner p, ?_, binding_eq power p⟩
  unfold operand operandFrom
  rw [if_pos (by rw [words.kind]; exact op.unary), Expr.tree]
  exact read.finish

theorem fits_of_le {least : Nat} {e : Expr} (le : least ≤ e.power) : e.fits least = true := by
  cases e with
  | unary => rfl
  | _ => exact decide_eq_true le

theorem le_of_fits_binary {least : Nat} {op : BinaryOperator} {l r : Expr}
    (h : (Expr.binary op l r).fits least = true) : least ≤ op.power := of_decide_eq_true h

theorem power_le_tail (e : Expr) : e.power ≤ tail e := by
  cases e with
  | binary op l r => exact op.power_le_rightPower
  | _ => exact Nat.le_refl _

/-- An operator is not read into its left operand. -/
theorem left_ends {op : BinaryOperator} {l : Expr} (fits : op.leftPower ≤ l.power) :
    op.kind.continues (tail l) = false := by
  refine Kind.not_continues_of_binary? op.binds ?_
  have le := Nat.le_trans op.power_le_leftPower fits
  cases l with
  -- The operator is no tighter than one before its operand, and none is as tight.
  | unary op' e => exact Nat.lt_of_le_of_ne le (Kind.ne_unary_of_binary? op.binds)
  | binary op' l r => exact op.lt_rightPower fits
  | list =>
      exact absurd (Kind.eq_comma_of_binary? op.binds (Nat.lt_succ_of_le le)) op.single
  | _ => exact Nat.lt_succ_of_le (Kind.le_eleven_of_binary? op.binds)

theorem join_of_operator {power : Nat} {op : BinaryOperator} {x : Tree × Parser}
    (here : x.2.kind = op.kind) (tight : power ≤ op.power) :
    join inner power x = ((joined inner op.power op.side x).finish, true) := by
  rcases join_cases inner power x with ⟨loose, _⟩ | ⟨own, side, binds, _, same⟩
  · exact absurd (loose _ _ (here ▸ op.binds)) (Nat.not_lt.mpr tight)
  · rw [here, op.binds] at binds
    cases binds
    rcases same with ⟨comma, _⟩ | ⟨_, e⟩
    · exact absurd (here.symm.trans comma) op.single
    · exact e

theorem binary_operation {op : BinaryOperator} {l r : Expr} (fitsLeft : op.leftPower ≤ l.power)
    (left : ReadsOperation inner d l) (right : inner.Finds d op.rightPower r) :
    ReadsOperation inner d (.binary op l r) := by
  intro power p rest fits h ended
  have words : p.At d (l.tree.leaves ++ .spelled op.kind :: (r.tree.leaves ++ rest)) := by
    simpa [Expr.tree] using h
  have tight := le_of_fits_binary fits
  have fits' : l.fits power = true :=
    fits_of_le (Nat.le_trans tight (Nat.le_trans op.power_le_leftPower fitsLeft))
  obtain ⟨x, found, same⟩ := left power p _ fits' words (left_ends fitsLeft)
  have here : x.2.kind = op.kind := found.parser.kind
  have goes : join inner power x = ((joined inner op.power op.side x).finish, true) :=
    join_of_operator here tight
  have read : Found (Expr.binary op l r).tree d rest (joined inner op.power op.side x).finish := by
    have opened := ((found.parser.start op.node).attach (some .left) x.1).bump (some .operator)
    have read := (opened.child (some .right) (right _ rest opened.parser ended)).finish
    rw [found.tree] at read
    unfold joined
    rw [here, Expr.tree]
    exact read
  refine ⟨_, read, ?_⟩
  rw [same]
  refine climb_step goes found.parser read.parser ?_
  simp only [List.length_cons, List.length_append]
  omega

theorem listStep_found {k : NodeKind} {cs : List Tree} {f : Frame} {e : Expr}
    (finds : inner.Finds d Power.assignment e)
    (h : f.Holds k cs d (.spelled .comma :: (e.tree.leaves ++ rest)))
    (ended : (firstKind rest).continues Power.assignment = false) :
    ∃ g, listStep inner f = (g, true) ∧ g.Holds k (cs ++ [mark .comma, e.tree]) d rest := by
  have next := h.bump.child none (finds _ rest h.bump.parser ended)
  rw [Expr.withRole_none, List.append_assoc] at next
  exact ⟨_, if_pos h.current, next⟩

/-- The items of a list after its first, each with the comma before it. -/
theorem items_found {k : NodeKind} : ∀ {es : List Expr} {e : Expr} {cs : List Tree} {f : Frame},
    (∀ x ∈ e :: es, inner.Finds d Power.assignment x) →
    (firstKind rest).continues Power.comma = false →
    f.Holds k cs d (.spelled .comma :: (leavesAll (listed (e.tree :: trees es)) ++ rest)) →
    (f.loop (listStep inner)).Holds k (cs ++ mark .comma :: listed (e.tree :: trees es)) d rest
  | [], e, cs, f, finds, ended, h => by
      have words : f.Holds k cs d (.spelled .comma :: (e.tree.leaves ++ rest)) := by
        simpa [trees] using h
      obtain ⟨g, goes, next⟩ := listStep_found (finds e List.mem_cons_self) words
        (Kind.not_continues_of_le ended (by decide))
      have stop : listStep inner g = (g, false) := by
        refine if_neg ?_
        intro comma
        rw [next.current] at comma
        rw [comma] at ended
        cases ended
      rw [words.loop_next goes next (by simp only [List.length_cons, List.length_append]; omega),
        Frame.loop_of_stop (by rw [stop]), stop]
      exact next
  | x :: es, e, cs, f, finds, ended, h => by
      have words : f.Holds k cs d (.spelled .comma :: (e.tree.leaves ++ .spelled .comma ::
          (leavesAll (listed (x.tree :: trees es)) ++ rest))) := by
        simpa [trees] using h
      obtain ⟨g, goes, next⟩ := listStep_found (finds e List.mem_cons_self) words rfl
      have all := items_found (fun y mem => finds y (List.mem_cons_of_mem e mem)) ended next
      rw [words.loop_next goes next (by simp only [List.length_cons, List.length_append]; omega)]
      simpa [trees] using all

theorem list_operation {first second : Expr} {more : List Expr}
    (fitsFirst : Power.assignment ≤ first.power) (left : ReadsOperation inner d first)
    (items : ∀ e ∈ second :: more, inner.Finds d Power.assignment e) :
    ReadsOperation inner d (.list first second more) := by
  intro power p rest fits h ended
  have loose : power ≤ Power.comma := of_decide_eq_true fits
  have words : p.At d (first.tree.leaves ++ .spelled .comma ::
      (leavesAll (listed (second.tree :: trees more)) ++ rest)) := by
    simpa [Expr.tree] using h
  have fits' : first.fits power = true :=
    fits_of_le (Nat.le_trans loose (Nat.le_of_succ_le fitsFirst))
  have ends : Kind.comma.continues (tail first) = false :=
    Kind.not_continues_of_binary? rfl
      (Nat.lt_of_lt_of_le (Nat.lt_of_succ_le fitsFirst) (power_le_tail first))
  obtain ⟨x, found, same⟩ := left power p _ fits' words ends
  have comma : x.2.kind = .comma := found.parser.kind
  have goes : join inner power x = (list inner x.1 x.2, true) := by
    rcases join_cases inner power x with ⟨tight, _⟩ | ⟨own, side, _, _, e⟩
    · exact absurd (tight Power.comma .left (by rw [comma]; rfl)) (Nat.not_lt.mpr loose)
    · rcases e with ⟨_, e⟩ | ⟨other, _⟩
      · exact e
      · exact absurd comma other
  have read : Found (Expr.list first second more).tree d rest (list inner x.1 x.2) := by
    have opened := (found.parser.start .expressionList).attach none x.1
    rw [found.tree, Expr.withRole_none] at opened
    rw [list_eq, Expr.tree]
    exact (items_found items ended opened).finish
  refine ⟨_, read, ?_⟩
  rw [same]
  refine climb_step goes found.parser read.parser ?_
  simp only [List.length_cons, List.length_append]
  omega

/-! ## Levels -/

/-- What may stand after the expression does not continue it at its end. -/
theorem tail_ends {power : Nat} {e : Expr} {k : Kind} (fits : e.fits power = true)
    (bounded : power ≤ 11) (ended : k.continues power = false) : k.continues (tail e) = false := by
  refine Kind.not_continues_of_tighter ended ?_
  intro own side binds lt
  refine Nat.lt_of_lt_of_le ?_ (power_le_tail e)
  rcases Expr.le_or_unary_of_fits fits with tight | unary
  · exact Nat.lt_of_lt_of_le lt tight
  -- An operator before its operand reads on at power 10. What follows binds below 11, and no
  -- operator between operands has the power 10.
  · rw [unary]
    exact Nat.lt_of_le_of_ne (Nat.le_of_lt_succ (Nat.lt_of_lt_of_le lt bounded))
      (Kind.ne_unary_of_binary? binds)

theorem above_finds {limit power : Nat} {e : Expr} (reads : ReadsOperation inner (d + 1) e)
    (room : d < limit) (fits : e.fits power = true) (bounded : power ≤ 11) :
    (inner.above limit).Finds d power e := by
  intro p rest h ended
  rcases Level.above_binding_cases limit inner power p with ⟨full, _⟩ | ⟨_, same⟩
  · rw [h.depth] at full
    exact absurd room (Nat.not_lt.mpr full)
  obtain ⟨r, found, read⟩ := reads power _ rest fits h.descend (tail_ends fits bounded ended)
  rw [same, read, climb_stop (by rw [found.parser.kind]; exact ended)]
  exact ⟨found.tree, found.parser.ascend⟩

end Expression

end JassSyntax
