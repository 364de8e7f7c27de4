import JassSyntax.Proofs.Derivation.Faultless
import JassSyntax.Proofs.Limit.Regions
import JassSyntax.Proofs.Reading.Conservation

/-!
# Brackets and blocks in trees

A tree in a text without errors closes all brackets and blocks that it opens, and between them
nothing that closes or ends something. This is read off the productions.
-/

namespace JassSyntax

open Computability

/-! ## The kinds of a tree -/

namespace Tree

/-- The kinds of the tokens of the tree, comments aside. -/
def kinds (t : Tree) : List Kind := (t.leaves.filter fun x => !x.isTrivia).map Token.kind

/-- The kinds of the tokens of trees, one after the other. -/
def kindsAll (ts : List Tree) : List Kind := ts.flatMap kinds

variable {t : Tree}

@[simp] theorem kinds_withRole (role : Option Role) (t : Tree) :
    (t.withRole role).kinds = t.kinds := by
  rw [kinds, leaves_withRole, kinds]

theorem kinds_token {k : Kind} {x : Token} (here : x.kind = k) (plain : k.isTrivia = false)
    (role : Option Role) : (token role x).kinds = [k] := by
  simp [kinds, leaves, Token.isTrivia, here, plain]

theorem kinds_leavesAll (ts : List Tree) :
    ((leavesAll ts).filter fun x => !x.isTrivia).map Token.kind = kindsAll ts := by
  induction ts with
  | nil => rfl
  | cons t ts ih =>
      rw [leavesAll_cons, List.filter_append, List.map_append, ih]
      rfl

theorem Comment.kinds (h : t.Comment) : t.kinds = [] := by
  have none : t.leaves.filter (fun x => !x.isTrivia) = [] :=
    List.filter_eq_nil_iff.mpr fun x leaf => by simp [h.leaves_trivia x leaf]
  rw [Tree.kinds, none, List.map_nil]

/-- Comments in between do not count. -/
theorem kindsAll_significant {ts : List Tree} (remarked : ∀ t ∈ ts, t.Remarked) :
    kindsAll (significant ts) = kindsAll ts := by
  induction ts with
  | nil => rfl
  | cons t ts ih =>
      have rest := ih fun u mem => remarked u (List.mem_cons_of_mem t mem)
      cases comment : t.isComment with
      | true =>
          have whole := remarked t List.mem_cons_self t (self_mem_elements t) comment
          rw [significant, List.filter_cons_of_neg (by simp [comment])]
          simpa [kindsAll, whole.kinds, significant] using rest
      | false =>
          rw [significant, List.filter_cons_of_pos (by simp [comment])]
          exact congrArg (t.kinds ++ ·) rest

/-- The kinds of a node are those of its parts. -/
theorem kinds_of_parts {k : NodeKind} (node : t.nodeKind? = some k) (remarked : t.Remarked) :
    t.kinds = kindsAll t.parts := by
  cases t with
  | token | missing => cases node
  | node role k span cs =>
      rw [parts, kindsAll_significant fun c child => remarked.of_child child, ← kinds_leavesAll]
      rfl

end Tree

/-- The kinds of the items that are still to be taken. -/
def Parser.kinds (p : Parser) : List Kind := p.ahead.toList.map Item.kind

/-- What is read are the next items. -/
theorem Reads.kinds {p q : Parser} {t : Tree} (read : Reads p t q) (tidy : p.Tidy) :
    p.kinds = t.kinds ++ q.kinds := by
  have conserved := congrArg (List.map Token.kind) (read.plainTokens_conserved tidy)
  rw [List.map_append, List.map_map, List.map_map] at conserved
  exact conserved.symm

/-! ## Balanced trees -/

/-- The kind neither opens nor closes anything, and is none of a comment. -/
def Kind.IsFlat (k : Kind) : Prop := k.isTrivia = false ∧ Level.walk 0 [k] = some 0

instance (k : Kind) : Decidable k.IsFlat := inferInstanceAs (Decidable (_ ∧ _))

namespace Kind

variable {k : Kind}

theorem isFlat_of_isOperand (h : k.isOperand = true) : k.IsFlat := by
  revert h
  cases k <;> decide

theorem isFlat_of_isUnary (h : k.isUnary = true) : k.IsFlat := by
  revert h
  cases k <;> decide

theorem isFlat_of_isModifier (h : k.isModifier = true) : k.IsFlat := by
  revert h
  cases k <;> decide

theorem isFlat_of_binary? {own : Nat} {side : Associativity} (h : k.binary? = some (own, side)) :
    k.IsFlat := by
  unfold binary? at h
  split at h <;> cases h <;> decide

theorem walk_of_opensNesting (h : k.opensNesting = true) :
    k.isTrivia = false ∧ Level.walk 0 [k] = some 1 := by
  revert h
  cases k <;> decide

theorem walk_of_closesNesting (h : k.closesNesting = true) :
    k.isTrivia = false ∧ Level.walk 1 [k] = some 0 := by
  revert h
  cases k <;> decide

end Kind

/-- How many blocks have to be open around a node: clauses stand only inside of one. -/
def NodeKind.around : NodeKind → Nat
  | .elseifClause | .elseClause => 1
  | _ => 0

/-- A node closes what it opens. -/
def Tree.Balanced (t : Tree) : Prop :=
  ∀ kind, t.nodeKind? = some kind → Level.walk kind.around t.kinds = some kind.around

/-- An expression closes what it opens. -/
theorem Tree.IsExpression.walk {t : Tree} (shape : t.IsExpression .clean) (balanced : t.Balanced) :
    Level.walk 0 t.kinds = some 0 := by
  cases shape with
  | leaf operand =>
      have flat := Kind.isFlat_of_isOperand operand
      rw [Tree.kinds_token rfl flat.1]
      exact flat.2
  | @node _ kind node expression =>
      have flat : kind.around = 0 := by
        revert expression
        cases kind <;> decide
      have here := balanced kind node
      rwa [flat] at here
  | absent repairs => exact absurd rfl repairs
  | error _ repairs => exact absurd rfl repairs

namespace Production

/-- What holds of the empty word, and carries over to a word with one of the language in front,
holds of all words of its star. -/
theorem star_induction {L : Language Tree} {P : List Tree → Prop} (nil : P [])
    (append : ∀ v ∈ L, ∀ w, P w → P (v ++ w)) {w : List Tree} (word : w ∈ L∗) : P w := by
  obtain ⟨words, rfl, mem⟩ := Language.mem_kstar.mp word
  clear word
  induction words with
  | nil => exact nil
  | cons v words ih =>
      exact append v (mem v List.mem_cons_self) _ (ih fun u part => mem u (.tail v part))

/-- Each word of balanced trees leads from so many open brackets and blocks to so many. -/
def Walks (before after : Nat) (L : Language Tree) : Prop :=
  ∀ w ∈ L, (∀ t ∈ w, t.Balanced) → Level.walk before (Tree.kindsAll w) = some after

namespace Walks

variable {L M : Language Tree} {a b c : Nat} {k : Kind} {role : Option Role}

theorem zero : Walks a b 0 := fun w word => absurd word (Language.notMem_zero w)

theorem empty : Walks a a 1 := by
  intro w word _
  rw [(Language.mem_one w).mp word]
  rfl

theorem append {v w : List Tree} (before : Level.walk a (Tree.kindsAll v) = some b)
    (after : Level.walk b (Tree.kindsAll w) = some c) :
    Level.walk a (Tree.kindsAll (v ++ w)) = some c := by
  rw [Tree.kindsAll] at before after ⊢
  rw [List.flatMap_append, Level.walk_append, before]
  exact after

theorem mul (left : Walks a b L) (right : Walks b c M) : Walks a c (L * M) := by
  rintro _ ⟨v, first, w, second, rfl⟩ balanced
  exact append (left v first fun t mem => balanced t (List.mem_append_left w mem))
    (right w second fun t mem => balanced t (List.mem_append_right v mem))

theorem add (left : Walks a b L) (right : Walks a b M) : Walks a b (L + M) := by
  rintro w (word | word)
  · exact left w word
  · exact right w word

theorem star (each : Walks a a L) : Walks a a L∗ := by
  intro w word
  refine star_induction (P := fun w => (∀ t ∈ w, t.Balanced) →
    Level.walk a (Tree.kindsAll w) = some a) (fun _ => rfl) (fun v first w rest balanced => ?_) word
  exact append (each v first fun t mem => balanced t (List.mem_append_left w mem))
    (rest fun t mem => balanced t (List.mem_append_right v mem))

/-- Inside more blocks nothing changes. -/
theorem succ (h : Walks a b L) : Walks (a + 1) (b + 1) L :=
  fun w word balanced => Level.walk_succ (h w word balanced)

theorem one {C : Tree → Prop}
    (each : ∀ t, C t → t.Balanced → Level.walk a t.kinds = some b) : Walks a b (one C) := by
  rintro _ ⟨t, rfl, shape⟩ balanced
  rw [Tree.kindsAll, List.flatMap_singleton]
  exact each t shape (balanced t List.mem_cons_self)

theorem tokenOf {passes : Kind → Prop} (plain : ∀ k, passes k → k.isTrivia = false)
    (step : ∀ k, passes k → Level.walk a [k] = some b) : Walks a b (tokenOf passes role) := by
  refine one ?_
  rintro _ ⟨x, rfl, pass⟩ _
  rw [Tree.kinds_token rfl (plain _ pass)]
  exact step _ pass

theorem flat {passes : Kind → Prop} (flat : ∀ k, passes k → k.IsFlat) :
    Walks 0 0 (Production.tokenOf passes role) :=
  tokenOf (fun k pass => (flat k pass).1) fun k pass => (flat k pass).2

theorem mark (flat : k.IsFlat) : Walks 0 0 (token k role) :=
  .flat fun _ same => same ▸ flat

theorem opener (opens : k.opensNesting = true) : Walks 0 1 (token k role) := by
  have step := Kind.walk_of_opensNesting opens
  exact tokenOf (fun _ same => same ▸ step.1) fun _ same => same ▸ step.2

theorem closer (closes : k.closesNesting = true) : Walks 1 0 (token k role) := by
  have step := Kind.walk_of_closesNesting closes
  exact tokenOf (fun _ same => same ▸ step.1) fun _ same => same ▸ step.2

/-- A keyword between the branches of a conditional. -/
theorem between (branches : k = .kwElseIf ∨ k = .kwElse) : Walks 1 1 (token k role) := by
  have step : k.isTrivia = false ∧ Level.walk 1 [k] = some 1 := by
    rcases branches with rfl | rfl <;> decide
  exact tokenOf (fun _ same => same ▸ step.1) fun _ same => same ▸ step.2

theorem nodeOf {passes : NodeKind → Prop} (inside : ∀ k, passes k → k.around = a) :
    Walks a a (nodeOf passes role) := by
  refine one ?_
  rintro t ⟨_, kind, node, pass⟩ balanced
  have here := balanced kind node
  rwa [inside kind pass] at here

theorem node {k : NodeKind} (flat : k.around = 0) : Walks 0 0 (node k role) :=
  nodeOf fun _ same => same ▸ flat

theorem clause {k : NodeKind} (inside : k.around = 1) : Walks 1 1 (Production.node k role) :=
  nodeOf fun _ same => same ▸ inside

theorem expression {power : Nat} : Walks 0 0 (expression .clean power role) :=
  one fun _ shape => shape.2.1.walk

theorem leftOperand {power : Nat} {side : Associativity} :
    Walks 0 0 (leftOperand .clean power side role) :=
  one fun _ shape => shape.2.1.walk

theorem plainOperand : Walks 0 0 (plainOperand .clean role) := one fun _ shape => shape.2.1.walk

theorem base : Walks 0 0 base := by
  refine one ?_
  rintro t ⟨_, ⟨x, leaf, name⟩ | ⟨kind, node, base⟩⟩ balanced
  · cases t with
    | token role y =>
        cases leaf
        rw [Tree.kinds_token name rfl]
        rfl
    | missing | node => cases leaf
  · have flat : kind.around = 0 := by
      revert base
      cases kind <;> decide
    have here := balanced kind node
    rwa [flat] at here

theorem body : Walks 0 0 body := empty.add (node rfl)

theorem commaSeparated (each : Walks 0 0 L) : Walks 0 0 (commaSeparated L) :=
  (each.mul (.mark (by decide))).star.mul each

theorem operationOf {passes : Kind → Prop} : Walks 0 0 (operationOf .clean passes) := by
  rintro w ⟨op, power, side, _, binary, word⟩
  have flat := Kind.isFlat_of_binary? binary
  exact (leftOperand.mul (.mark flat)).mul expression w word

end Walks

/-- The children of a node close what they open. -/
theorem walks_production (k : NodeKind) : Walks k.around k.around (production .clean k) := by
  have optional : ∀ {L : Language Tree}, Walks 0 0 L → Walks 0 0 (1 + L) := .add .empty
  have mark : ∀ {k : Kind} {role : Option Role}, k.IsFlat → Walks 0 0 (token k role) := .mark
  have modifiers : Walks 0 0 modifier := .flat fun _ => Kind.isFlat_of_isModifier
  have name : ∀ {role : Option Role}, Walks 0 0 (token .identifier role) := .mark (by decide)
  have member : Walks 0 0 (token .dot * token .identifier (some .name)) :=
    (mark (by decide)).mul name
  have method : Walks 0 0 (token .colon * token .identifier (some .method)) :=
    (mark (by decide)).mul name
  have statements : Walks 0 0 (nodeOf (·.isStatement = true)) := .nodeOf fun k pass => by
    revert pass
    cases k <;> decide
  have arguments : Walks 0 0 arguments := .nodeOf fun k pass => by
    revert pass
    cases k <;> decide
  have parameters : Walks 0 0 parameters := .node rfl
  have comma : Walks 0 0 (token .comma) := .mark (by decide)
  have body : Walks 1 1 body := Walks.body.succ
  have condition : Walks 1 1 (expression .clean Power.assignment (some .condition)) :=
    Walks.expression.succ
  cases k <;> simp only [production, wanted_clean, closing_clean, statement_clean, repaired_clean,
    NodeKind.around, add_zero, zero_mul, Production.member, Production.method, separator, junk]
  case program => exact statements.star
  case block => exact statements.mul statements.star
  case blockComment | error => exact .zero
  case variableDeclaration =>
    exact ((modifiers.mul modifiers.star).add
      ((modifiers.star.mul name).mul (mark (by decide)).star)).mul (.commaSeparated (.node rfl))
  case declarator => exact name.mul (optional ((mark (by decide)).mul .expression))
  case globalsBlock | loopStatement | doStatement =>
    exact ((Walks.opener rfl).mul body).mul (.closer rfl)
  case structDefinition =>
    exact (((Walks.opener rfl).mul name.succ).mul body).mul (.closer rfl)
  case whileStatement =>
    exact ((((mark (by decide)).mul .expression).mul (.opener rfl)).mul body).mul (.closer rfl)
  case repeatStatement =>
    exact ((Walks.opener rfl).mul body).mul ((Walks.closer rfl).mul .expression)
  case ifStatement =>
    exact ((((((Walks.opener rfl).mul condition).mul (mark (by decide)).succ).mul body).mul
      (Walks.clause rfl).star).mul (.add .empty (.clause rfl))).mul (.closer rfl)
  case elseifClause =>
    exact (((Walks.between (.inl rfl)).mul condition).mul (mark (by decide)).succ).mul body
  case elseClause => exact (Walks.between (.inr rfl)).mul body
  case functionDefinition =>
    exact ((((Walks.opener rfl).mul (name.add (.node rfl)).succ).mul parameters.succ).mul
      body).mul (.closer rfl)
  case functionName =>
    exact name.mul (((member.mul member.star).mul (optional method)).add method)
  case parameters =>
    exact (((Walks.opener rfl).mul ((Walks.node rfl).mul comma).star.succ).mul
      (optional (.node rfl)).succ).mul (.closer rfl)
  case parameter => exact (optional name).mul name
  case returnStatement => exact (mark (by decide)).mul (optional (.commaSeparated .expression))
  case breakStatement | emptyStatement => exact mark (by decide)
  case expressionStatement => exact .expression
  case binaryExpression | assignmentExpression => exact .operationOf
  case unaryExpression => exact (Walks.flat fun _ => Kind.isFlat_of_isUnary).mul .expression
  case updateExpression =>
    exact Walks.plainOperand.mul ((mark (by decide)).add (mark (by decide)))
  case expressionList =>
    exact Walks.leftOperand.mul ((comma.mul .expression).mul (comma.mul .expression).star)
  case parenthesizedExpression =>
    exact ((Walks.opener rfl).mul Walks.expression.succ).mul (.closer rfl)
  case memberExpression => exact Walks.base.mul member
  case indexExpression =>
    exact ((Walks.base.mul (.opener rfl)).mul Walks.expression.succ).mul (.closer rfl)
  case functionCall =>
    exact (Walks.base.mul arguments).add ((Walks.base.mul method).mul arguments)
  case arguments =>
    exact ((Walks.opener rfl).mul (optional (.commaSeparated .expression)).succ).mul (.closer rfl)
  case tableConstructor =>
    exact (((Walks.opener rfl).mul
      ((Walks.node rfl).mul (comma.add (mark (by decide)))).star.succ).mul
      (optional (.node rfl)).succ).mul (.closer rfl)
  case field =>
    exact ((optional ((((Walks.opener rfl).mul Walks.expression.succ).mul (.closer rfl)).mul
      (mark (by decide)))).add (name.mul (mark (by decide)))).mul .expression
  case string =>
    exact ((mark (by decide)).mul (optional (mark (by decide)))).mul (mark (by decide))
  case functionExpression =>
    exact (((Walks.opener rfl).mul parameters.succ).mul body).mul (.closer rfl)

end Production

namespace Tree

/-- In a text without errors every node closes what it opens. -/
theorem Lawful.balanced {t : Tree} (lawful : t.Lawful .clean) (remarked : t.Remarked) :
    t.Balanced := by
  induction lawful with
  | @intro t here below ih =>
      intro kind node
      rw [kinds_of_parts node remarked]
      refine Production.walks_production kind _ (here.derived kind node) fun c part => ih c part ?_
      exact remarked.of_child (List.mem_of_mem_filter part)

end Tree

end JassSyntax
