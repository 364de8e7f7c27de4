import JassSyntax.Proofs.Derivation.Statements

/-!
# How expressions are grouped

Operators that bind tighter lie deeper in the tree, operators of one power lean to one side, and a
list of expressions stands only where commas cannot mean anything else. All of this is read off the
productions, so it holds of texts with errors too, as long as no nesting has been cut off.
-/

namespace JassSyntax

open Computability Production

/-! ## Trees of words -/

namespace Production

/-- Every tree of every word is of a class. -/
def Each (C : Tree → Prop) (L : Language Tree) : Prop := ∀ w ∈ L, ∀ t ∈ w, C t

namespace Each

variable {C D : Tree → Prop} {L M : Language Tree}

@[grind ←] theorem zero : Each C 0 := by
  intro w word
  exact absurd word (Language.notMem_zero w)

@[grind ←] theorem empty : Each C 1 := by
  intro w word t part
  rw [(Language.mem_one w).mp word] at part
  cases part

@[grind ←] theorem add (left : Each C L) (right : Each C M) : Each C (L + M) := by
  rintro w (word | word)
  · exact left w word
  · exact right w word

@[grind ←] theorem mul (left : Each C L) (right : Each C M) : Each C (L * M) := by
  rintro _ ⟨v, first, w, second, rfl⟩ t part
  rcases List.mem_append.mp part with part | part
  · exact left v first t part
  · exact right w second t part

@[grind ←] theorem star (each : Each C L) : Each C L∗ := by
  intro w word t part
  obtain ⟨words, rfl, mem⟩ := Language.mem_kstar.mp word
  obtain ⟨v, some, part⟩ := List.mem_flatten.mp part
  exact each v (mem v some) t part

@[grind ←] theorem repaired {m : Tolerance} (each : Each C L) : Each C (repaired m L) :=
  fun w word => each w word.2

theorem one (sub : ∀ t, D t → C t) : Each C (one D) := by
  rintro _ ⟨t, rfl, shape⟩ u part
  rw [List.mem_singleton.mp part]
  exact sub t shape

end Each

end Production

/-! ## Grouping -/

namespace Tree

/-- The parts of an expression are grouped as the powers of the operators have it. -/
structure WellGrouped (t : Tree) : Prop where
  /-- On the left of an operator stand operators that bind tighter, or as tight if that associates
  to the left. -/
  left : ∀ own side, t.operator? = some (own, side) → ∀ l ∈ t.parts, l.role = some .left →
    ∀ inner side', l.operator? = some (inner, side') → own < inner ∨ inner = own ∧ side = .left
  right : ∀ own side, t.operator? = some (own, side) → ∀ r ∈ t.parts, r.role = some .right →
    ∀ inner side', r.operator? = some (inner, side') → own < inner ∨ inner = own ∧ side = .right
  /-- An operator before its operand does not reach below a power. -/
  caret : t.operator? = Kind.caret.binary? → ∀ l ∈ t.parts, l.role = some .left →
    l.nodeKind? ≠ some .unaryExpression
  unary : t.nodeKind? = some .unaryExpression → ∀ c ∈ t.parts, c.role = some .operand →
    ∀ inner side, c.operator? = some (inner, side) → Power.unary ≤ inner
  /-- Lists stand only in parentheses, and alone in a statement. -/
  list : ∀ c ∈ t.parts, c.nodeKind? = some .expressionList →
    t.nodeKind? = some .parenthesizedExpression ∨ t.nodeKind? = some .expressionStatement
  /-- Members, indices and arguments follow a name or a node that they may follow. -/
  base : ∀ kind, t.nodeKind? = some kind →
    kind = .memberExpression ∨ kind = .indexExpression ∨ kind = .functionCall →
      ∀ c ∈ t.parts, c.role = some .base → c.IsBase

end Tree

variable {m : Tolerance}

/-! ### Lists -/

/-- The tree is no list of expressions. -/
def Tree.IsNoList (t : Tree) : Prop := t.nodeKind? ≠ some .expressionList

namespace Production

@[grind ←] theorem noList_tokenOf (passes : Kind → Prop) (role : Option Role) :
    Each Tree.IsNoList (tokenOf passes role) := by
  refine .one ?_
  rintro _ ⟨token, rfl, _⟩
  exact fun list => by cases list

@[grind ←] theorem noList_nodeOf {passes : NodeKind → Prop} (role : Option Role)
    (other : ¬ passes .expressionList) : Each Tree.IsNoList (nodeOf passes role) := by
  refine .one ?_
  rintro t ⟨_, kind, node, pass⟩ list
  rw [node] at list
  cases list
  exact other pass

@[grind ←] theorem noList_placeholder (kind : Kind) (role : Option Role) :
    Each Tree.IsNoList (placeholder kind role) := by
  refine .one ?_
  rintro _ ⟨position, rfl⟩
  exact fun list => by cases list

@[grind ←] theorem noList_expression {power : Nat} (role : Option Role)
    (tight : Power.comma < power) :
    Each Tree.IsNoList (expression m power role) :=
  .one fun _ shape list => absurd (shape.2.2.list list) (Nat.not_le_of_lt tight)

@[grind ←] theorem noList_base : Each Tree.IsNoList base := by
  refine .one ?_
  rintro t ⟨_, ⟨token, leaf, _⟩ | ⟨kind, node, base⟩⟩ list
  · cases t with
    | token => cases list
    | missing | node => cases leaf
  · rw [node] at list
    cases list
    cases base

@[grind ←] theorem noList_leftOperand {power : Nat} {side : Associativity} (role : Option Role)
    (limited : m ≠ .full) : Each Tree.IsNoList (leftOperand m power side role) :=
  .one fun _ shape => (shape.2.2 limited).list

@[grind ←] theorem noList_plainOperand (role : Option Role) :
    Each Tree.IsNoList (plainOperand m role) :=
  .one fun _ shape list => by cases shape.2.2 _ list

@[grind ←] theorem noList_operand : Each Tree.IsNoList (operand m) :=
  .one fun _ shape list => absurd ((shape.2.2 (Power.comma + 1)).list list) (by decide)

@[grind ←] theorem noList_token (kind : Kind) (role : Option Role) :
    Each Tree.IsNoList (token kind role) := noList_tokenOf _ role

@[grind ←] theorem noList_node {kind : NodeKind} (role : Option Role)
    (other : kind ≠ .expressionList) : Each Tree.IsNoList (node kind role) :=
  noList_nodeOf role fun same => other same.symm

@[grind ←] theorem noList_junk : Each Tree.IsNoList (junk m) := by
  unfold junk
  grind

@[grind ←] theorem noList_wanted (kind : Kind) (role : Option Role) :
    Each Tree.IsNoList (wanted m kind role) := by
  unfold wanted
  grind

@[grind ←] theorem noList_closing (kind : Kind) : Each Tree.IsNoList (closing m kind) := by
  unfold closing
  grind

@[grind ←] theorem noList_body : Each Tree.IsNoList body := by
  unfold body
  grind

@[grind ←] theorem noList_statement : Each Tree.IsNoList (statement m) :=
  (noList_nodeOf none (by decide)).add noList_junk

@[grind ←] theorem noList_arguments : Each Tree.IsNoList arguments :=
  noList_nodeOf _ (by decide)

@[grind ←] theorem noList_commaSeparated {L : Language Tree} (each : Each Tree.IsNoList L) :
    Each Tree.IsNoList (commaSeparated L) := by
  unfold commaSeparated
  grind

theorem noList_operationOf (limited : m ≠ .full) {passes : Kind → Prop}
    (single : ∀ op, passes op → op ≠ .comma) : Each Tree.IsNoList (operationOf m passes) := by
  rintro w ⟨op, own, side, pass, binary, word⟩
  -- Only the comma binds more loosely than an assignment.
  have tight : Power.comma < Expression.rightPower own side := by
    have above : Power.assignment ≤ own := Nat.le_of_not_lt fun loose =>
      single op pass (Kind.eq_comma_of_binary? binary loose)
    cases side with
    | left => exact Nat.lt_succ_of_le (Nat.le_of_succ_le above)
    | right => exact above
  exact (((noList_leftOperand _ limited).mul (noList_token op _)).mul
    (noList_expression _ tight)) w word

theorem noList_production (limited : m ≠ .full) (kind : NodeKind)
    (inParentheses : kind ≠ .parenthesizedExpression) (alone : kind ≠ .expressionStatement) :
    Each Tree.IsNoList (production m kind) := by
  cases kind
  case binaryExpression => exact noList_operationOf limited fun _ pass => pass.2
  case assignmentExpression =>
    exact noList_operationOf limited fun _ pass => by rw [pass]; decide
  all_goals
    unfold production
    grind [modifier, parameters, member, method, separator, tokens, Power.unary, Power.assignment,
      Power.comma]

/-! ### Roles -/

/-- A tree in a role is of a class. -/
def InRole (r : Role) (P : Tree → Prop) (t : Tree) : Prop := t.role = some r → P t

variable {P C : Tree → Prop} {r : Role}

/-- Words of trees in another role. -/
theorem inRole_of_role {role : Option Role} (other : role ≠ some r)
    (sub : ∀ t, C t → t.role = role) :
    Each (InRole r P) (one C) :=
  .one fun t shape same => absurd ((sub t shape).symm.trans same) other

theorem inRole_tokenOf (passes : Kind → Prop) {role : Option Role} (other : role ≠ some r) :
    Each (InRole r P) (tokenOf passes role) := by
  refine inRole_of_role other ?_
  rintro _ ⟨token, rfl, _⟩
  rfl

theorem inRole_nodeOf (passes : NodeKind → Prop) {role : Option Role} (other : role ≠ some r) :
    Each (InRole r P) (nodeOf passes role) :=
  inRole_of_role other fun _ shape => shape.1

theorem inRole_expression (power : Nat) {role : Option Role} (other : role ≠ some r) :
    Each (InRole r P) (expression m power role) :=
  inRole_of_role other fun _ shape => shape.1

theorem inRole_placeholder (kind : Kind) {role : Option Role} (other : role ≠ some r) :
    Each (InRole r P) (placeholder kind role) := by
  refine inRole_of_role other ?_
  rintro _ ⟨position, rfl⟩
  rfl

theorem inRole_wanted (kind : Kind) {role : Option Role} (other : role ≠ some r) :
    Each (InRole r P) (wanted m kind role) := by
  have there : Each (InRole r P) (token kind role) := inRole_tokenOf _ other
  have junk : Each (InRole r P) (junk m) := .repaired (inRole_nodeOf _ (by simp))
  exact there.add ((junk.mul there).add (.repaired (inRole_placeholder kind other)))

theorem inRole_base : Each (InRole .base Tree.IsBase) base := .one fun _ shape _ => shape.2

theorem inRole_arguments (other : r ≠ .args) : Each (InRole r P) arguments :=
  inRole_nodeOf _ fun same => other (Option.some_inj.mp same).symm

/-- What a member, an index or arguments follow is a base. -/
theorem inRole_base_of_suffix {kind : NodeKind} (suffix : kind = .memberExpression ∨
    kind = .indexExpression ∨ kind = .functionCall) :
    Each (InRole .base Tree.IsBase) (production m kind) := by
  have name : ∀ {k : Kind} {role : Role}, role ≠ .base →
      Each (InRole .base Tree.IsBase) (wanted m k (some role)) := fun other =>
    inRole_wanted _ fun same => other (Option.some_inj.mp same)
  have mark : ∀ k, Each (InRole .base Tree.IsBase) (token k) := fun k =>
    inRole_tokenOf _ (by decide)
  have arguments : Each (InRole .base Tree.IsBase) arguments := inRole_arguments (by decide)
  rcases suffix with rfl | rfl | rfl
  · exact inRole_base.mul ((mark .dot).mul (name (by decide)))
  · exact ((inRole_base.mul (mark .lBracket)).mul (inRole_expression _ (by decide))).mul
      (inRole_wanted _ (by decide))
  · exact (inRole_base.mul arguments).add ((inRole_base.mul ((mark .colon).mul
      (name (by decide)))).mul (arguments.add (.repaired (inRole_placeholder _ (by decide)))))

theorem inRole_left {op : Kind} {own : Nat} {side : Associativity} (limited : m ≠ .full) :
    Each (InRole .left (Tree.FitsLeft own side)) (operation m op own side) := by
  have left : Each (InRole .left (Tree.FitsLeft own side))
      (leftOperand m own side (some .left)) := .one fun _ shape _ => shape.2.2 limited
  exact (left.mul (inRole_tokenOf _ (by decide))).mul (inRole_expression _ (by decide))

theorem inRole_right {op : Kind} {own : Nat} {side : Associativity} :
    Each (InRole .right (Tree.Binds (Expression.rightPower own side)))
      (operation m op own side) := by
  have left : Each (InRole .right (Tree.Binds (Expression.rightPower own side)))
      (leftOperand m own side (some .left)) := inRole_of_role (by decide) fun _ shape => shape.1
  exact (left.mul (inRole_tokenOf _ (by decide))).mul (.one fun _ shape _ => shape.2.2)

end Production

/-! ### Derived trees -/

namespace Tree

variable {t : Tree}

theorem WellBuilt.operation (h : t.WellBuilt m) {own : Nat} {side : Associativity}
    (op : t.operator? = some (own, side)) :
    ∃ kind, kind.binary? = some (own, side) ∧ t.parts ∈ operation m kind own side := by
  have node : t.nodeKind? = some .binaryExpression ∨ t.nodeKind? = some .assignmentExpression := by
    unfold operator? at op
    split at op
    · next node => exact .inl node
    · next node => exact .inr node
    · cases op
  have word : ∃ passes, t.parts ∈ operationOf m passes := by
    rcases node with node | node
    · exact ⟨_, h.derived _ node⟩
    · exact ⟨_, h.derived _ node⟩
  obtain ⟨passes, kind, own', side', _, binary, word⟩ := word
  rw [operator?_of_operation node binary word] at op
  cases op
  exact ⟨kind, binary, word⟩

/-- Only nodes have parts. -/
theorem node_of_part {c : Tree} (part : c ∈ t.parts) : ∃ kind, t.nodeKind? = some kind := by
  cases t with
  | token | missing => cases part
  | node _ kind => exact ⟨kind, rfl⟩

theorem WellBuilt.wellGrouped (h : t.WellBuilt m) (limited : m ≠ .full) : t.WellGrouped where
  left own side op l part role inner side' op' := by
    obtain ⟨kind, _, word⟩ := h.operation op
    rcases (inRole_left limited _ word l part role).operator inner side' op' with
      tighter | ⟨same, leans⟩
    · exact .inl tighter
    · exact .inr ⟨same.symm, leans⟩
  right own side op r part role inner side' op' := by
    obtain ⟨kind, _, word⟩ := h.operation op
    have tight := (inRole_right _ word r part role).operator inner side' op'
    cases side with
    | left => exact .inl tight
    | right =>
        rcases Nat.lt_or_eq_of_le tight with tighter | same
        · exact .inl tighter
        · exact .inr ⟨same.symm, rfl⟩
  caret op l part role := by
    obtain ⟨kind, _, word⟩ := h.operation op
    exact (inRole_left limited _ word l part role).unary (by decide)
  unary node c part role inner side op := by
    have operand :
        Each (InRole .operand (Tree.Binds Power.unary)) (production m .unaryExpression) :=
      (inRole_tokenOf _ (by decide)).mul (.one fun _ shape _ => shape.2.2)
    exact (operand _ (h.derived _ node) c part role).operator inner side op
  list c part list := by
    obtain ⟨kind, node⟩ := node_of_part part
    by_contra elsewhere
    rw [node] at elsewhere
    refine noList_production limited kind ?_ ?_ _ (h.derived kind node) c part list
    · rintro rfl
      exact elsewhere (.inl rfl)
    · rintro rfl
      exact elsewhere (.inr rfl)
  base kind node suffix c part role :=
    inRole_base_of_suffix suffix _ (h.derived kind node) c part role

end Tree

namespace Program

/-- **Every tree is grouped by powers**, also that of a text with errors, unless nesting has been
cut off. -/
theorem parse_wellGrouped (tokens : List Token)
    (limited : ∀ e ∈ (parse tokens).2, e.kind ≠ .nestingTooDeep) :
    (parse tokens).1.Everywhere Tree.WellGrouped := by
  have lawful : (parse tokens).1.Lawful .shallow := parseWithin_lawful maxDepth tokens limited
  exact lawful.imp fun t built => built.wellGrouped (by decide)

/-- The text `a = b - c - 2 ^ -d * )`, which ends in an error. -/
theorem parse_wellGrouped_unfinished :
    let tokens : List Token := [⟨.identifier, "a", default⟩, ⟨.equals, "=", default⟩,
      ⟨.identifier, "b", default⟩, ⟨.minus, "-", default⟩, ⟨.identifier, "c", default⟩,
      ⟨.minus, "-", default⟩, ⟨.number, "2", default⟩, ⟨.caret, "^", default⟩,
      ⟨.minus, "-", default⟩, ⟨.identifier, "d", default⟩, ⟨.star, "*", default⟩,
      ⟨.rParen, ")", default⟩]
    (∀ e ∈ (parse tokens).2, e.kind ≠ .nestingTooDeep) ∧
      (parse tokens).1.Everywhere Tree.WellGrouped := by
  intro tokens
  have limited : ∀ e ∈ (parse tokens).2, e.kind ≠ .nestingTooDeep := by decide +kernel
  exact ⟨limited, parse_wellGrouped tokens limited⟩

end Program

end JassSyntax
