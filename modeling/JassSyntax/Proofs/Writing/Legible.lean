import JassSyntax.Proofs.Writing.Spelling

/-!
# Written programs are made of words

Nothing that a program is written with is a comment or the end of input. So a stream of such words
has as many items as words, and no comments among them.
-/

namespace JassSyntax

open JassSyntax.Tree

theorem Token.isSignificant_spelled (kind : Kind) (text : String) :
    (spelled kind text).isSignificant = (!kind.isTrivia && kind != .eof) := rfl

namespace Abstract

/-- All leaves of the tree are words. -/
def legible (t : Tree) : Bool := t.leaves.all Token.isSignificant

def legibleAll (ts : List Tree) : Bool := (leavesAll ts).all Token.isSignificant

@[simp] theorem legibleAll_nil : legibleAll [] = true := rfl

@[simp] theorem legibleAll_cons (t : Tree) (ts : List Tree) :
    legibleAll (t :: ts) = (legible t && legibleAll ts) := by
  rw [legibleAll, leavesAll_cons, List.all_append, legible, legibleAll]

@[simp] theorem legibleAll_append (ts us : List Tree) :
    legibleAll (ts ++ us) = (legibleAll ts && legibleAll us) := by
  rw [legibleAll, leavesAll_append, List.all_append, legibleAll, legibleAll]

@[simp] theorem legible_word (kind : Kind) (text : String) (role : Option Role) :
    legible (word kind text role) = (!kind.isTrivia && kind != .eof) := by
  rw [legible, leaves_word, List.all_cons, List.all_nil, Bool.and_true, Token.isSignificant_spelled]

@[simp] theorem legible_mark (kind : Kind) (role : Option Role) :
    legible (mark kind role) = (!kind.isTrivia && kind != .eof) := by
  rw [legible, leaves_mark, List.all_cons, List.all_nil, Bool.and_true, Token.isSignificant_spelled]

@[simp] theorem legible_ident (text : String) (role : Option Role) :
    legible (ident text role) = true :=
  legible_word ..

@[simp] theorem legible_build (kind : NodeKind) (ts : List Tree) :
    legible (build kind ts) = legibleAll ts := by
  rw [legible, leaves_build, legibleAll]

@[simp] theorem legible_withRole (t : Tree) (role : Option Role) :
    legible (t.withRole role) = legible t := by
  rw [legible, leaves_withRole, legible]

theorem legible_listed {ts : List Tree} (h : legibleAll ts = true) :
    legibleAll (listed ts) = true := by
  induction ts with
  | nil => rfl
  | cons t ts ih =>
      rw [legibleAll_cons, Bool.and_eq_true] at h
      cases ts with
      | nil => simp [h.1]
      | cons u us =>
          rw [listed_cons, legibleAll_cons, legibleAll_cons, h.1, ih h.2]
          rfl

theorem legible_bodyPart {ts : List Tree} (h : legibleAll ts = true) :
    legibleAll (bodyPart ts) = true := by
  cases ts with
  | nil => rfl
  | cons t ts => simpa [bodyPart] using h

theorem legible_flatMap {α : Type} {f : α → List Tree} (each : ∀ x, legibleAll (f x) = true)
    (xs : List α) : legibleAll (xs.flatMap f) = true := by
  induction xs with
  | nil => rfl
  | cons x xs ih => rw [List.flatMap_cons, legibleAll_append, each x, ih, Bool.and_self]

theorem legible_map {α : Type} {f : α → Tree}
    (each : ∀ x, legible (f x) = true) (xs : List α) :
    legibleAll (xs.map f) = true := by
  induction xs with
  | nil => rfl
  | cons x xs ih => rw [List.map_cons, legibleAll_cons, each x, ih, Bool.and_self]

theorem legible_withRoles (role : Option Role) (ts : List Tree) :
    legibleAll (ts.map (Tree.withRole role)) = legibleAll ts := by
  induction ts with
  | nil => rfl
  | cons t ts ih => rw [List.map_cons, legibleAll_cons, legibleAll_cons, legible_withRole, ih]

/-! ## Parts without expressions -/

theorem BinaryOperator.significant (op : BinaryOperator) :
    (!op.kind.isTrivia && op.kind != .eof) = true := by
  have binds := op.binds
  revert binds
  cases op.kind <;> first | (intro _; rfl) | (intro binds; cases binds)

theorem UnaryOperator.significant (op : UnaryOperator) :
    (!op.kind.isTrivia && op.kind != .eof) = true := by
  have unary := op.unary
  revert unary
  cases op.kind <;> decide

theorem Modifier.significant (m : Modifier) : (!m.kind.isTrivia && m.kind != .eof) = true := by
  have modifies := m.modifies
  revert modifies
  cases m.kind <;> decide

theorem legible_quoted (s : Quoted) : legible s.tree = true := by
  obtain ⟨opening, content, closing⟩ := s
  cases content <;> simp [Quoted.tree, Kind.isTrivia]

theorem legible_parameter (p : Parameter) : legible p.tree = true := by
  obtain ⟨type, name⟩ := p
  cases type <;> simp [Parameter.tree]

theorem legible_parameterTree (ps : List Parameter) :
    legible (parameterTree ps) = true := by
  have items := legible_listed (legible_map legible_parameter ps)
  simp [parameterTree, items, Kind.isTrivia]

theorem legible_functionName (name : FunctionName) : legible name.tree = true := by
  have members : legibleAll (memberTrees name.members) = true :=
    legible_flatMap (fun member => by simp [Kind.isTrivia]) _
  have method : legibleAll (methodTrees name.method) = true :=
    legible_flatMap (fun method => by simp [Kind.isTrivia]) _
  unfold FunctionName.tree
  split
  · simp
  · rename_i parts more
    have parts : legibleAll (memberTrees name.members ++ methodTrees name.method) = true := by
      rw [legibleAll_append, members, method, Bool.and_self]
    simp [parts]

theorem legible_heading (heading : Heading) : legibleAll heading.trees = true := by
  have modifiers : ∀ ms, legibleAll (modifierTrees ms) = true :=
    legible_map fun m => (legible_mark ..).trans m.significant
  cases heading with
  | untyped first more => exact modifiers _
  | typed ms type arrays =>
      have arrays : legibleAll
          (List.replicate arrays (mark .kwArray (some .modifier))) = true := by
        induction arrays with
        | zero => rfl
        | succ n ih => rw [List.replicate_succ, legibleAll_cons, ih]; rfl
      simp [Heading.trees, modifiers, arrays]

/-! ## Expressions and statements -/

mutual

theorem legible_expr : ∀ e : Expr, legible e.tree = true
  | .name _ => by simp [Expr.tree]
  | .number _ => by simp [Expr.tree, Kind.isTrivia]
  | .float _ => by simp [Expr.tree, Kind.isTrivia]
  | .string s => by
      rw [Expr.tree]
      exact legible_quoted s
  | .table fields => by simp [Expr.tree, Kind.isTrivia, legible_fields fields]
  | .function ps body => by
      simp [Expr.tree, closed, Kind.isTrivia, legible_parameterTree, legible_bodyPart,
        legible_body body]
  | .group e => by simp [Expr.tree, Kind.isTrivia, legible_expr e]
  | .member base _ => by simp [Expr.tree, Kind.isTrivia, legible_expr base]
  | .index base i => by simp [Expr.tree, Kind.isTrivia, legible_expr base, legible_expr i]
  | .call base args => by simp [Expr.tree, legible_expr base, legible_arguments args]
  | .methodCall base _ args => by
      simp [Expr.tree, Kind.isTrivia, legible_expr base, legible_arguments args]
  | .update e op => by
      cases op <;> simp [Expr.tree, Update.kind, Kind.isTrivia, legible_expr e]
  | .unary op e => by simp [Expr.tree, op.significant, legible_expr e]
  | .binary op l r => by simp [Expr.tree, op.significant, legible_expr l, legible_expr r]
  | .list first second more => by
      have items : legibleAll (first.tree :: second.tree :: trees more) = true := by
        simp [legible_expr first, legible_expr second, legible_exprs more]
      rw [Expr.tree, legible_build]
      exact legible_listed items

theorem legible_exprs : ∀ es : List Expr, legibleAll (trees es) = true
  | [] => rfl
  | e :: es => by simp [trees, legible_expr e, legible_exprs es]

theorem legible_arguments : ∀ args : Arguments, legible args.tree = true
  | .values es => by
      simp [Arguments.tree, Kind.isTrivia, legible_listed (legible_exprs es)]
  | .string s => by
      rw [Arguments.tree]
      exact legible_quoted s
  | .table fields => by simp [Arguments.tree, Kind.isTrivia, legible_fields fields]

theorem legible_fields : ∀ fields : Fields, legibleAll fields.trees = true
  | .none => by rw [Fields.trees, legibleAll_nil]
  | .last field => by simp [Fields.trees, legible_field field]
  | .more field separator rest => by
      cases separator <;>
        simp [Fields.trees, Separator.kind, Kind.isTrivia, legible_field field, legible_fields rest]

theorem legible_field : ∀ field : Field, legible field.tree = true
  | .value e => by simp [Field.tree, legible_expr e]
  | .named _ e => by simp [Field.tree, Kind.isTrivia, legible_expr e]
  | .keyed key e => by simp [Field.tree, Kind.isTrivia, legible_expr key, legible_expr e]

theorem legible_declarator : ∀ d : Declarator, legible d.tree = true
  | .plain _ => by simp [Declarator.tree]
  | .assigned _ e => by simp [Declarator.tree, Kind.isTrivia, legible_expr e]

theorem legible_declarators : ∀ ds : List Declarator, legibleAll (declaratorTrees ds) = true
  | [] => rfl
  | d :: ds => by simp [declaratorTrees, legible_declarator d, legible_declarators ds]

theorem legible_stmt : ∀ s : Stmt, legible s.tree = true
  | .declaration heading first more => by
      have items : legibleAll (first.tree.withRole (some .declarator) :: declaratorTrees more) =
          true := by
        simp [legible_declarator first, legible_declarators more]
      rw [Stmt.tree, legible_build, legibleAll_append, legible_heading, legible_listed items]
      rfl
  | .block b body => by
      have statements := legible_bodyPart (legible_body body)
      cases b <;> simp [Stmt.tree, closed, SimpleBlock.opener, SimpleBlock.closer, Kind.isTrivia,
        statements]
  | .struct _ body => by
      simp [Stmt.tree, closed, Kind.isTrivia, legible_bodyPart (legible_body body)]
  | .whileLoop c body => by
      simp [Stmt.tree, closed, Kind.isTrivia, legible_expr c, legible_bodyPart (legible_body body)]
  | .repeatLoop body c => by
      simp [Stmt.tree, Kind.isTrivia, legible_expr c, legible_bodyPart (legible_body body)]
  | .conditional c body branches => by
      simp [Stmt.tree, closed, Kind.isTrivia, legible_expr c, legible_bodyPart (legible_body body),
        legible_branches branches]
  | .function name ps body => by
      simp [Stmt.tree, closed, Kind.isTrivia, legible_functionName, legible_parameterTree,
        legible_bodyPart (legible_body body)]
  | .returns es => by
      have items : legibleAll ((trees es).map (Tree.withRole (some .value))) = true := by
        rw [legible_withRoles, legible_exprs es]
      simp [Stmt.tree, Kind.isTrivia, legible_listed items]
  | .breaks => by simp [Stmt.tree, Kind.isTrivia]
  | .empty => by simp [Stmt.tree, semicolon, Kind.isTrivia]
  | .expression e => by simp [Stmt.tree, legible_expr e]

theorem legible_body : ∀ ss : List Stmt, legibleAll (bodyTrees ss) = true
  | [] => rfl
  | s :: ss => by
      simp [bodyTrees, semicolon, Kind.isTrivia, legible_stmt s, legible_body ss]

theorem legible_branches : ∀ branches : Branches, legibleAll branches.trees = true
  | .done => by rw [Branches.trees, legibleAll_nil]
  | .otherwise body => by
      simp [Branches.trees, Kind.isTrivia, legible_bodyPart (legible_body body)]
  | .elseif c body rest => by
      simp [Branches.trees, Kind.isTrivia, legible_expr c, legible_bodyPart (legible_body body),
        legible_branches rest]

end

end Abstract

end JassSyntax
