import JassSyntax.Proofs.Limit.Balance

/-!
# Chains of operands

One token, or one pair of brackets and what lies between them, is put aside as a whole where an
expression lies beyond the nesting limit. A tree that is made of such operands and of operators
between them is put aside piece by piece. Neither strings nor anything that goes on behind its first
token or its brackets are among them.
-/

namespace JassSyntax

open Computability

namespace NodeKind

/-- Nodes in a pair of brackets, or between a keyword and its closer. -/
def isGroup : NodeKind → Bool
  | .parenthesizedExpression | .tableConstructor | .functionExpression => true
  | _ => false

/-- Nodes of operands and operators between them. -/
def isJoined : NodeKind → Bool
  | .binaryExpression | .assignmentExpression | .expressionList => true
  | _ => false

theorem isJoined_cases {k : NodeKind} (joined : k.isJoined = true) :
    k = .expressionList ∨ k = .binaryExpression ∨ k = .assignmentExpression := by
  revert joined
  cases k <;> decide

end NodeKind

namespace Tree

mutual

/-- The tree is an operand that is put aside as a whole, with the operators before it, or operands
of that kind with operators between them if they may be joined. Comments do not matter. -/
def isChain (joined : Bool) : Tree → Bool
  | node _ k _ cs =>
    k == .blockComment || k.isGroup ||
      (k == .unaryExpression || joined && k.isJoined) && areChains joined cs
  | _ => true

/-- All of the trees are such chains. -/
def areChains (joined : Bool) : List Tree → Bool
  | [] => true
  | c :: cs => isChain joined c && areChains joined cs

end

theorem areChains_eq_all (joined : Bool) (ts : List Tree) :
    areChains joined ts = ts.all (isChain joined) := by
  induction ts with
  | nil => rfl
  | cons t ts ih => rw [areChains, ih, List.all_cons]

theorem isChain_withRole (joined : Bool) (role : Option Role) (t : Tree) :
    (t.withRole role).isChain joined = t.isChain joined := by
  cases t <;> simp [withRole, isChain]

/-- What an expression that is a chain is made of. -/
theorem chain_cases {joined : Bool} {t : Tree} {k : NodeKind} (chain : t.isChain joined = true)
    (node : t.nodeKind? = some k) (expression : k.isExpression = true) :
    k.isGroup = true ∨ (k = .unaryExpression ∨ joined = true ∧ k.isJoined = true) ∧
      ∀ c ∈ t.parts, c.isChain joined = true := by
  cases t with
  | token | missing => cases node
  | node role k' span cs =>
      cases node
      rw [isChain, Bool.or_eq_true, Bool.or_eq_true, Bool.and_eq_true, Bool.or_eq_true, beq_iff_eq,
        beq_iff_eq, Bool.and_eq_true, areChains_eq_all, List.all_eq_true] at chain
      rcases chain with (rfl | group) | ⟨kind, each⟩
      · cases expression
      · exact .inl group
      · exact .inr ⟨kind, fun c part => each c (List.mem_of_mem_filter part)⟩

end Tree

/-! ## The kinds of a chain -/

theorem Expression.le_rightPower (own : Nat) (side : Associativity) :
    own ≤ rightPower own side := by
  cases side
  · exact Nat.le_succ own
  · exact Nat.le_refl own

namespace Level

/-- The kinds of an operand, and behind it those of operators that bind at least as tightly as
`power` with their operands. -/
def IsChain (power : Nat) (ks : List Kind) : Prop :=
  ∃ first tail, ks = first ++ tail ∧ IsOperand first ∧ IsTail power tail

theorem IsOperand.isChain {power : Nat} {ks : List Kind} (h : IsOperand ks) : IsChain power ks :=
  ⟨ks, [], (List.append_nil ks).symm, h, .nil⟩

theorem IsChain.mono {power loose : Nat} {ks : List Kind} (h : IsChain power ks)
    (le : loose ≤ power) : IsChain loose ks :=
  have ⟨first, tail, kinds, operand, rest⟩ := h
  ⟨first, tail, kinds, operand, rest.mono le⟩

/-- An operator and a chain behind it. -/
theorem IsChain.tail {power own : Nat} {side : Associativity} {op : Kind} {ks : List Kind}
    (h : IsChain power ks) (binary : op.binary? = some (own, side)) (tight : power ≤ own) :
    IsTail power (op :: ks) := by
  obtain ⟨first, tail, rfl, operand, rest⟩ := h
  exact .cons binary tight operand rest

theorem IsChain.append {power : Nat} {ks ls : List Kind} (h : IsChain power ks)
    (rest : IsTail power ls) : IsChain power (ks ++ ls) := by
  obtain ⟨first, tail, rfl, operand, before⟩ := h
  exact ⟨first, tail ++ ls, List.append_assoc .., operand, before.append rest⟩

end Level

open Level (IsTail IsChain)

namespace Production

variable {L : Language Tree}

/-- Brackets around balanced trees are put aside as a whole. -/
theorem isOperand_group {opener closer : Kind} {role : Option Role} {w : List Tree}
    (starts : opener.canStartExpression = true) (opens : opener.opensNesting = true)
    (walks : Walks 0 0 L) (closes : closer.closesNesting = true)
    (word : w ∈ token opener * L * token closer role) (balanced : ∀ t ∈ w, t.Balanced) :
    Level.IsOperand (Tree.kindsAll w) := by
  obtain ⟨_, ⟨_, ⟨_, rfl, x, rfl, first⟩, v, inside, rfl⟩, _, ⟨_, rfl, y, rfl, last⟩, rfl⟩ := word
  have middle := walks v inside fun t mem => balanced t (by simp [mem])
  have kinds : Tree.kindsAll ([.token none x] ++ v ++ [.token role y]) =
      opener :: Tree.kindsAll v ++ [closer] := by
    simp [Tree.kindsAll, Tree.kinds_token first (Kind.walk_of_opensNesting opens).1,
      Tree.kinds_token last (Kind.walk_of_closesNesting closes).1]
  exact kinds ▸ Level.isOperand_group starts opens middle closes

theorem isTail_star {power : Nat} {C : Tree → Prop}
    (each : ∀ w ∈ L, (∀ t ∈ w, C t) → IsTail power (Tree.kindsAll w)) {w : List Tree}
    (word : w ∈ L∗) : (∀ t ∈ w, C t) → IsTail power (Tree.kindsAll w) := by
  refine star_induction (P := fun w => (∀ t ∈ w, C t) → IsTail power (Tree.kindsAll w))
    (fun _ => .nil) (fun v first w rest all => ?_) word
  rw [Tree.kindsAll, List.flatMap_append]
  exact (each v first fun t part => all t (List.mem_append_left w part)).append
    (rest fun t part => all t (List.mem_append_right v part))

end Production

namespace Tree

variable {t : Tree}

open Production

/-- Tokens that are expressions are put aside as a whole. -/
theorem isOperand_token {x : Token} (operand : x.kind.isOperand = true) (role : Option Role) :
    Level.IsOperand (token role x).kinds := by
  have shape : x.kind.canStartExpression = true ∧ x.kind.isUnary = false ∧
      x.kind.opensNesting = false := by
    revert operand
    cases x.kind <;> decide
  rw [kinds_token rfl (Kind.isFlat_of_isOperand operand).1]
  exact Level.isOperand_single shape.1 shape.2.1 shape.2.2

theorem Lawful.isOperand_group (lawful : t.Lawful .clean) (remarked : t.Remarked) {k : NodeKind}
    (node : t.nodeKind? = some k) (group : k.isGroup = true) : Level.IsOperand t.kinds := by
  have derived := lawful.here.derived k node
  have balanced : ∀ c ∈ t.parts, c.Balanced := fun c part =>
    Lawful.balanced (lawful.of_part c part) (remarked.of_child (List.mem_of_mem_filter part))
  rw [kinds_of_parts node remarked]
  cases k <;> try cases group
  case parenthesizedExpression =>
    rw [production, wanted_clean] at derived
    exact Production.isOperand_group rfl rfl .expression rfl derived balanced
  case tableConstructor =>
    rw [production, wanted_clean, junk, repaired_clean, add_zero,
      mul_assoc (Production.token .lBrace)] at derived
    have fields : Walks 0 0 (Production.node .field * separator)∗ :=
      ((Walks.node rfl).mul ((Walks.mark (by decide)).add (.mark (by decide)))).star
    exact Production.isOperand_group rfl rfl (fields.mul (.add .empty (.node rfl))) rfl derived
      balanced
  case functionExpression =>
    rw [production, closing_clean, mul_assoc (Production.token .kwFunction)] at derived
    exact Production.isOperand_group rfl rfl ((Walks.node rfl).mul .body) rfl derived balanced

/-- The parts of an operator before its operand. -/
theorem WellBuilt.unary (h : t.WellBuilt .clean) (node : t.nodeKind? = some .unaryExpression) :
    ∃ role x r, t.parts = [token role x, r] ∧ x.kind.isUnary = true ∧ r.IsExpression .clean ∧
      r.Binds Power.unary := by
  obtain ⟨_, ⟨_, rfl, x, rfl, unary⟩, _, ⟨r, rfl, _, shape, binds⟩, parts⟩ :=
    h.derived _ node
  exact ⟨_, x, r, parts.symm, unary, shape, binds⟩

/-- An operand with the operators before it is put aside as a whole. -/
theorem Lawful.isOperand (lawful : t.Lawful .clean) (remarked : t.Remarked)
    (lone : t.isChain false = true) (shape : t.IsExpression .clean) : Level.IsOperand t.kinds := by
  induction lawful with
  | @intro t here below ih =>
  cases shape with
  | leaf operand => exact isOperand_token operand _
  | absent repairs => exact absurd rfl repairs
  | error _ repairs => exact absurd rfl repairs
  | node node expression =>
      rcases chain_cases lone node expression with group | ⟨rfl | ⟨joined, _⟩, each⟩
      · exact Lawful.isOperand_group (.intro here below) remarked node group
      · obtain ⟨role, x, r, parts, unary, shape, _⟩ := here.unary node
        have part : r ∈ t.parts := by simp [parts]
        have inside := ih r part (remarked.of_child (List.mem_of_mem_filter part)) (each r part)
          shape
        rw [kinds_of_parts node remarked, parts, kindsAll, List.flatMap_cons,
          List.flatMap_singleton, kinds_token rfl (Kind.isFlat_of_isUnary unary).1]
        exact Level.isOperand_unary unary inside
      · cases joined

theorem FitsLeft.binds {own : Nat} {side : Associativity} (fits : t.FitsLeft own side) :
    t.Binds own := by
  refine ⟨fun list => absurd list fits.list, fun inner side' op => ?_⟩
  rcases fits.operator inner side' op with tighter | ⟨same, _⟩
  · exact Nat.le_of_lt tighter
  · exact Nat.le_of_eq same

/-- The parts of an operation. -/
theorem WellBuilt.operands (h : t.WellBuilt .clean)
    (node : t.nodeKind? = some .binaryExpression ∨ t.nodeKind? = some .assignmentExpression) :
    ∃ l role x r own side, t.parts = [l, token role x, r] ∧
      x.kind.binary? = some (own, side) ∧ t.operator? = some (own, side) ∧
      l.IsExpression .clean ∧ l.Binds own ∧ r.IsExpression .clean ∧
      r.Binds (Expression.rightPower own side) := by
  have word : ∃ passes, t.parts ∈ operationOf .clean passes := by
    rcases node with node | node <;> exact ⟨_, h.derived _ node⟩
  obtain ⟨passes, op, own, side, _, binary, word⟩ := word
  have operator := operator?_of_operation node binary word
  obtain ⟨_, ⟨_, ⟨l, rfl, _, left, fits⟩, _, ⟨_, rfl, x, rfl, rfl⟩, rfl⟩, _,
    ⟨r, rfl, _, right, binds⟩, parts⟩ := word
  exact ⟨l, _, x, r, own, side, parts.symm, binary, operator, left, (fits (by decide)).binds, right,
    binds⟩

/-- The items of a list. -/
theorem WellBuilt.items (h : t.WellBuilt .clean) (node : t.nodeKind? = some .expressionList) :
    ∃ l rest, t.parts = l :: rest ∧ l.IsExpression .clean ∧ l.Binds Power.comma ∧
      rest ∈ (Production.token .comma * expression .clean Power.assignment)∗ := by
  obtain ⟨_, ⟨l, rfl, _, left, fits⟩, rest, items, parts⟩ := h.derived _ node
  refine ⟨l, rest, parts.symm, left, (fits (by decide)).binds, ?_⟩
  have more := mul_kstar_le_kstar (a := Production.token .comma *
    expression .clean Power.assignment)
  exact more items

theorem isTail_items {w : List Tree}
    (word : w ∈ (Production.token .comma * expression .clean Power.assignment)∗)
    (each : ∀ c ∈ w, c.IsExpression .clean → c.Binds Power.assignment →
      IsChain Power.assignment c.kinds) : IsTail Power.comma (kindsAll w) := by
  refine isTail_star (fun v item all => ?_) word each
  obtain ⟨_, ⟨_, rfl, x, rfl, comma⟩, _, ⟨c, rfl, _, shape, binds⟩, rfl⟩ := item
  have chain := all c (by simp) shape binds
  have kinds : kindsAll ([.token none x] ++ [c]) = .comma :: c.kinds := by
    simp [kindsAll, kinds_token comma rfl]
  exact kinds ▸ (chain.mono (by decide)).tail rfl (Nat.le_refl _)

section

variable {power : Nat} (here : t.WellBuilt .clean) (remarked : t.Remarked)
  (inside : ∀ c ∈ t.parts, c.IsExpression .clean → ∀ {own}, c.Binds own → own ≤ 11 →
    IsChain own c.kinds)
include here remarked inside

/-- No operator in the operand binds just as tightly as the one before it, so those behind its first
operand go on behind the whole. -/
theorem isChain_unary (node : t.nodeKind? = some .unaryExpression) (loose : power ≤ 11) :
    IsChain power t.kinds := by
  obtain ⟨role, x, r, parts, unary, shape, binds⟩ := here.unary node
  obtain ⟨first, tail, kinds, operand, rest⟩ := inside r (by simp [parts]) shape binds (by decide)
  rw [kinds_of_parts node remarked]
  refine ⟨x.kind :: first, tail, ?_, Level.isOperand_unary unary operand, rest.tighten.mono loose⟩
  simp [parts, kindsAll, kinds_token rfl (Kind.isFlat_of_isUnary unary).1, kinds]

theorem isChain_list (list : t.nodeKind? = some .expressionList) (binds : t.Binds power) :
    IsChain power t.kinds := by
  obtain ⟨l, rest, parts, left, fits, items⟩ := here.items list
  have before := inside l (by simp [parts]) left fits (by decide)
  have after := isTail_items (w := rest) items fun c part shape binds =>
    inside c (by simp [parts, part]) shape binds (by decide)
  have kinds : kindsAll t.parts = l.kinds ++ kindsAll rest := by
    rw [parts]
    rfl
  rw [kinds_of_parts list remarked, kinds]
  exact (before.append after).mono (binds.list list)

theorem isChain_operation
    (node : t.nodeKind? = some .binaryExpression ∨ t.nodeKind? = some .assignmentExpression)
    (binds : t.Binds power) : IsChain power t.kinds := by
  obtain ⟨l, role, x, r, own, side, parts, binary, operator, left, fits, right, follows⟩ :=
    here.operands node
  have tight := binds.operator own side operator
  have before := inside l (by simp [parts]) left fits (Kind.le_eleven_of_binary? binary)
  have after := inside r (by simp [parts]) right follows
    (Kind.rightPower_le_eleven_of_binary? binary)
  have whole : t.kinds = kindsAll t.parts := by
    rcases node with node | node <;> exact kinds_of_parts node remarked
  have kinds : kindsAll t.parts = l.kinds ++ x.kind :: r.kinds := by
    simp [parts, kindsAll, kinds_token rfl (Kind.isFlat_of_binary? binary).1]
  rw [whole, kinds]
  exact (before.mono tight).append ((after.mono (Nat.le_trans tight
    (Expression.le_rightPower own side))).tail binary tight)

end

/-- A chain is put aside piece by piece. -/
theorem Lawful.isChain (lawful : t.Lawful .clean) (remarked : t.Remarked)
    (chain : t.isChain true = true) (shape : t.IsExpression .clean) {power : Nat}
    (binds : t.Binds power) (loose : power ≤ 11) : IsChain power t.kinds := by
  induction lawful generalizing power with
  | @intro t here below ih =>
  cases shape with
  | leaf operand => exact (isOperand_token operand _).isChain
  | absent repairs => exact absurd rfl repairs
  | error _ repairs => exact absurd rfl repairs
  | @node _ kind node expression =>
      rcases chain_cases chain node expression with group | ⟨joined, each⟩
      · exact (Lawful.isOperand_group (.intro here below) remarked node group).isChain
      have inside : ∀ c ∈ t.parts, c.IsExpression .clean → ∀ {own}, c.Binds own → own ≤ 11 →
          IsChain own c.kinds := fun c part shape _ binds loose =>
        ih c part (remarked.of_child (List.mem_of_mem_filter part)) (each c part) shape binds loose
      rcases joined with rfl | ⟨_, joined⟩
      · exact isChain_unary here remarked inside node loose
      rcases NodeKind.isJoined_cases joined with rfl | rfl | rfl
      · exact isChain_list here remarked inside node binds
      · exact isChain_operation here remarked inside (.inl node) binds
      · exact isChain_operation here remarked inside (.inr node) binds

end Tree

end JassSyntax
