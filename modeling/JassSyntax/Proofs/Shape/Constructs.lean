import JassSyntax.Proofs.Recovery.Blame
import JassSyntax.Proofs.Shape.Attachment
import JassSyntax.Proofs.Tree.Roles

/-!
# The shape of constructs

Whatever is wrong with a text, a construct that has a closer has it exactly once, as a token or as a
placeholder, and ends with it. It has at most one body, which is not empty, and only a conditional
goes on with branches, the one without a condition last. What prints a tree or looks into it counts
on that.
-/

namespace JassSyntax

open Computability Production JassSyntax.Tree

variable {m : Tolerance} {kind : NodeKind} {closer : Kind}

/-! ## Constructs as productions -/

namespace Production

/-- The tree is no branch of a conditional and plays none of the roles. -/
structure Apart (roles : List (Option Role)) (t : Tree) : Prop where
  role : t.role ∉ roles
  branch : ¬t.IsBranch

/-- What comes in front of the body of a construct. -/
def heading (m : Tolerance) : NodeKind → Language Tree
  | .structDefinition => token .kwStruct * wanted m .identifier (some .name)
  | .whileStatement =>
    token .kwWhile * expression m Power.assignment (some .condition) * wanted m .kwDo
  | .ifStatement =>
    token .kwIf * expression m Power.assignment (some .condition) * wanted m .kwThen
  | .elseifClause =>
    token .kwElseIf * expression m Power.assignment (some .condition) * wanted m .kwThen
  | .elseClause => token .kwElse
  | .functionDefinition =>
    token .kwFunction * (wanted m .identifier (some .name) + node .functionName (some .name)) *
      parameters
  | .functionExpression => token .kwFunction * parameters
  | k =>
    match k.opening? with
    | some word => token word
    | none => 1

/-- The branches of a construct behind its first body. -/
def branches : NodeKind → Language Tree
  | .ifStatement =>
    (node .elseifClause (some .alternative))∗ * (1 + node .elseClause (some .alternative))
  | _ => 1

/-- The closer of a construct, and what is behind it. -/
def ending (m : Tolerance) : NodeKind → Language Tree
  | .repeatStatement =>
    token .kwUntil (some .closing) * expression m Power.assignment (some .condition) +
      repaired m (placeholder .kwUntil (some .closing))
  | k =>
    match k.closer with
    | some closer => closing m closer
    | none => 1

/-! ### What is apart from bodies and branches -/

theorem not_isBranch {t : Tree} {k : NodeKind} (node : t.nodeKind? = some k)
    (other : k.isClause = false) : ¬t.IsBranch := by
  rintro ⟨k', node', clause⟩
  rw [node] at node'
  cases node'
  rw [other] at clause
  cases clause

theorem not_isBranch_of_isExpression {t : Tree} (h : t.IsExpression m) : ¬t.IsBranch := by
  cases h with
  | leaf | absent => exact fun ⟨_, node, _⟩ => by cases node
  | error node => exact not_isBranch node rfl
  | @node _ k node expression =>
      refine not_isBranch node ?_
      revert expression
      cases k <;> decide

variable {roles : List (Option Role)} {role : Option Role} {C : Tree → Prop}

theorem apart_one (other : role ∉ roles) (same : ∀ t, C t → t.role = role)
    (single : ∀ t, C t → ¬t.IsBranch) : Each (Apart roles) (one C) :=
  .one fun t shape => ⟨same t shape ▸ other, single t shape⟩

@[grind ←] theorem apart_tokenOf (passes : Kind → Prop) (other : role ∉ roles) :
    Each (Apart roles) (tokenOf passes role) := by
  refine apart_one other ?_ ?_
  · rintro _ ⟨token, rfl, _⟩
    rfl
  · rintro _ ⟨token, rfl, _⟩ ⟨_, node, _⟩
    cases node

@[grind ←] theorem apart_placeholder (kind : Kind) (other : role ∉ roles) :
    Each (Apart roles) (placeholder kind role) := by
  refine apart_one other ?_ ?_
  · rintro _ ⟨position, rfl⟩
    rfl
  · rintro _ ⟨position, rfl⟩ ⟨_, node, _⟩
    cases node

theorem apart_nodeOf {passes : NodeKind → Prop} (other : role ∉ roles)
    (single : ∀ k, passes k → k.isClause = false) : Each (Apart roles) (nodeOf passes role) := by
  refine apart_one other (fun _ shape => shape.1) ?_
  rintro t ⟨_, k, node, pass⟩
  exact not_isBranch node (single k pass)

@[grind ←] theorem apart_expression (power : Nat) (other : role ∉ roles) :
    Each (Apart roles) (expression m power role) :=
  apart_one other (fun _ shape => shape.1) fun _ shape => not_isBranch_of_isExpression shape.2.1

@[grind ←] theorem apart_token (kind : Kind) (other : role ∉ roles) :
    Each (Apart roles) (token kind role) :=
  apart_tokenOf _ other

@[grind ←] theorem apart_node (other : role ∉ roles) (single : kind.isClause = false) :
    Each (Apart roles) (node kind role) :=
  apart_nodeOf other fun _ same => same ▸ single

@[grind ←] theorem apart_junk (other : none ∉ roles) : Each (Apart roles) (junk m) :=
  .repaired (apart_node other rfl)

@[grind ←] theorem apart_wanted (kind : Kind) (none : none ∉ roles) (other : role ∉ roles) :
    Each (Apart roles) (wanted m kind role) := by
  unfold wanted
  grind

@[grind ←] theorem apart_parameters (other : some .parameters ∉ roles) :
    Each (Apart roles) parameters :=
  apart_node other rfl

@[grind ←] theorem apart_base : Each (Apart []) base := by
  refine .one ?_
  rintro t ⟨_, ⟨token, leaf, _⟩ | ⟨k, node, base⟩⟩
  · cases t with
    | token => exact ⟨by simp, fun ⟨_, node, _⟩ => by cases node⟩
    | missing | node => cases leaf
  · refine ⟨by simp, not_isBranch node ?_⟩
    revert base
    cases k <;> decide

@[grind ←] theorem apart_leftOperand (power : Nat) (side : Associativity) :
    Each (Apart []) (leftOperand m power side role) :=
  .one fun _ shape => ⟨by simp, not_isBranch_of_isExpression shape.2.1⟩

@[grind ←] theorem apart_plainOperand : Each (Apart []) (plainOperand m role) :=
  .one fun _ shape => ⟨by simp, not_isBranch_of_isExpression shape.2.1⟩

@[grind ←] theorem apart_operand : Each (Apart []) (operand m) :=
  .one fun _ shape => ⟨by simp, not_isBranch_of_isExpression shape.2.1⟩

@[grind ←] theorem apart_statement : Each (Apart []) (statement m) := by
  have statement : Each (Apart []) (nodeOf (·.isStatement = true)) :=
    apart_nodeOf (by simp) fun k => by cases k <;> decide
  exact statement.add (apart_junk (by simp))

@[grind ←] theorem apart_arguments : Each (Apart []) arguments :=
  apart_nodeOf (by simp) fun k => by cases k <;> decide

@[grind ←] theorem apart_commaSeparated {L : Language Tree} (each : Each (Apart []) L) :
    Each (Apart []) (commaSeparated L) := by
  unfold commaSeparated
  grind

@[grind ←] theorem apart_operationOf (passes : Kind → Prop) :
    Each (Apart []) (operationOf m passes) := by
  rintro w ⟨op, own, side, -, -, word⟩
  exact (((apart_leftOperand own side).mul (apart_token op (by simp))).mul
    (apart_expression _ (by simp))) w word

end Production

/-! ## Shapes -/

namespace Tree

variable {t : Tree}

/-- Behind the last part of a node stands no comment that leads up to a token. -/
theorem CommentsLead.eq_nil {left right : List Tree} (h : CommentsLead (left ++ right))
    (none : significant right = []) : right = [] := by
  cases right with
  | nil => rfl
  | cons c right =>
      have comments : ∀ d ∈ c :: right, d.isComment = true := fun d mem => by
        simpa using List.filter_eq_nil_iff.mp none d mem
      obtain ⟨x, before, role, rest, rfl, -, plain⟩ :=
        h left c right rfl (comments c List.mem_cons_self)
      have token := comments (.token role x) (by simp)
      rw [isComment, plain] at token
      cases token

end Tree

/-! ## Programs -/

namespace Program

end Program

end JassSyntax
