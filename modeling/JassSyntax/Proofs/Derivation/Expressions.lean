import JassSyntax.Proofs.Derivation.Build

/-!
# Expressions are derivations

Each function that reads an expression builds the production of the node that it makes, provided
that the level inside it does. What follows an expression is part of the statement: a `Level` stops
only where no operator is left that binds tightly enough, and the operators around an expression
rely on that.
-/

namespace JassSyntax

open Computability Production

variable {m : Tolerance} {inner : Level}

/-- No operator stands here that binds at least as tightly as `power`. -/
def Parser.Stops (m : Tolerance) (power : Nat) (p : Parser) : Prop :=
  m ≠ .full → m.Admits p.errors.toList → ∀ own side, p.kind.binary? = some (own, side) → own < power

/-- What a level reads are derivations, and its expressions leave no operator of theirs behind. -/
structure Level.Sound (m : Tolerance) (inner : Level) : Prop where
  progresses : inner.Progresses
  binding : ∀ power p,
    Yields m (fun t => t.IsExpression m ∧ t.Binds power) p (inner.binding power p)
  stops : ∀ power p, (inner.binding power p).2.Stops m power
  body : ∀ terminators {k : NodeKind} {L : Language Tree} {f : Frame}, f.Builds m k L →
    (inner.body terminators f).Builds m k (L * Production.body)

/-! ## Classes of trees in a role -/

namespace Production

theorem mem_node {t : Tree} {kind : NodeKind} (role : Option Role) (h : t.nodeKind? = some kind) :
    [t.withRole role] ∈ node kind role :=
  ⟨_, rfl, t.role_withRole role, kind, by simpa using h, rfl⟩

theorem mem_nodeOf {t : Tree} {passes : NodeKind → Prop} (role : Option Role)
    (h : ∃ kind, t.nodeKind? = some kind ∧ passes kind) :
    [t.withRole role] ∈ nodeOf passes role := by
  obtain ⟨kind, node, pass⟩ := h
  exact ⟨_, rfl, t.role_withRole role, kind, by simpa using node, pass⟩

end Production

namespace Tree

variable {t : Tree}

@[simp] theorem operator?_withRole (role : Option Role) (t : Tree) :
    (t.withRole role).operator? = t.operator? := by
  simp [operator?]

theorem IsExpression.withRole (h : t.IsExpression m) (role : Option Role) :
    (t.withRole role).IsExpression m := by
  cases h with
  | leaf operand => exact .leaf operand
  | node node expression => exact .node (by simpa using node) expression
  | absent repairs => exact .absent repairs
  | error error repairs => exact .error (by simpa using error) repairs

theorem Binds.withRole {power : Nat} (h : t.Binds power) (role : Option Role) :
    (t.withRole role).Binds power :=
  ⟨fun list => h.list (by simpa using list),
    fun own side op => h.operator own side (by simpa using op)⟩

theorem FitsLeft.withRole {power : Nat} {side : Associativity} (h : t.FitsLeft power side)
    (role : Option Role) : (t.withRole role).FitsLeft power side :=
  ⟨by simpa using h.list, fun own side' op => h.operator own side' (by simpa using op),
    fun tight => by simpa using h.unary tight⟩

theorem IsBase.withRole (h : t.IsBase) (role : Option Role) : (t.withRole role).IsBase := by
  simpa [IsBase] using h

end Tree

namespace Production

variable {t : Tree}

theorem mem_expression {power : Nat} (role : Option Role)
    (h : t.IsExpression m ∧ t.Binds power) : [t.withRole role] ∈ expression m power role :=
  ⟨_, rfl, t.role_withRole role, h.1.withRole role, h.2.withRole role⟩

theorem mem_operand (h : t.IsExpression m ∧ ∀ power, t.Binds power) :
    [t.withRole none] ∈ operand m :=
  ⟨_, rfl, t.role_withRole none, h.1.withRole none, fun power => (h.2 power).withRole none⟩

theorem mem_base (h : t.IsBase) : [t.withRole (some .base)] ∈ base :=
  ⟨_, rfl, t.role_withRole _, h.withRole _⟩

theorem mem_plainOperand (role : Option Role) (h : t.IsExpression m ∧ t.IsPlain) :
    [t.withRole role] ∈ plainOperand m role :=
  ⟨_, rfl, t.role_withRole role, h.1.withRole role, fun kind node => h.2 kind (by simpa using node)⟩

theorem mem_leftOperand {power : Nat} {side : Associativity} (role : Option Role)
    (h : t.IsExpression m ∧ (m ≠ .full → t.FitsLeft power side)) :
    [t.withRole role] ∈ leftOperand m power side role :=
  ⟨_, rfl, t.role_withRole role, h.1.withRole role, fun limited => (h.2 limited).withRole role⟩

end Production

/-! ## Parts of blocks -/

namespace Frame.Builds

variable {k : NodeKind} {L : Language Tree} {f : Frame}

/-- An expression of the level inside. -/
theorem operand (h : f.Builds m k L) (sound : inner.Sound m) (power : Nat) (role : Option Role) :
    (f.child role (inner.binding power)).Builds m k (L * expression m power role) :=
  h.child (sound.binding power _) fun _ => mem_expression role

theorem closedBody (h : f.Builds m k L) (sound : inner.Sound m) {closer : Kind}
    (closes : k.closer = some closer) (token : closer ≠ .eof) :
    (f.closedBody inner).Builds m k (L * Production.body * closing m closer) := by
  have nonempty : f.kind.closer.toList ≠ [] := by
    rw [h.kind, closes]
    exact List.cons_ne_nil _ _
  exact (h.within nonempty fun _ _ built => sound.body _ built).close closes token

end Frame.Builds

namespace Frame

theorem parameter_yields {p : Parser} (here : p.kind = .identifier) :
    Yields m (fun t => t.nodeKind? = some .parameter) p (parameter p) := by
  have reads := parameter_reads p
  rcases parameter_cases p with ⟨typed, e⟩ | ⟨_, e⟩ <;> rw [e] at reads ⊢
  · refine .node reads ?_
    intro tidy
    have type := (Builds.opened (m := m) tidy .parameter here (by decide) (some .type)).mono
      (le_add_self (b := (1 : Language Tree)))
    refine type.bump ?_ (by decide) (some .name)
    have there : (p.start .parameter).current ≠ .eof := ne_of_eq_of_ne here (by decide)
    rw [current_bump there]
    exact typed
  · refine .node reads ?_
    intro tidy
    have plain := (Builds.start (m := m) tidy .parameter).second.mono
      (M := 1 + token .identifier (some .type)) le_self_add
    exact plain.bump (p.kind_second.trans here) (by decide) (some .name)

/-- Parameters come one by one, each but the last with a comma. -/
theorem Builds.parameterItems {k : NodeKind} {L : Language Tree} {f : Frame}
    (h : f.Builds m k L) :
    f.parameterItems.Builds m k
      (L * (node .parameter * token .comma)∗ * (1 + node .parameter)) := by
  refine h.rounds ?_ (.inl le_self_add)
  intro M g built
  split
  · next here =>
    have one := built.child (parameter_yields here) fun _ => mem_node none
    unfold eat
    split
    · next comma =>
      refine .inl ⟨rfl, ?_⟩
      rw [← mul_assoc]
      exact one.bump comma (by decide) none
    · exact .inr ⟨rfl, one.right⟩
  · exact .inr ⟨rfl, built.without⟩

theorem parameterList_yields (p : Parser) :
    Yields m (fun t => t.nodeKind? = some .parameters) p (parameterList p) := by
  have reads := parameterList_reads p
  have lParen : Kind.lParen ≠ .eof := by decide
  unfold parameterList at reads ⊢
  dsimp only at reads ⊢
  split at reads
  · next opens =>
    rw [if_pos opens]
    refine .node reads ?_
    intro tidy
    rcases (Builds.start (m := m) tidy .parameters).demand lParen none (.unexpected .lParen) with
    ⟨_, built⟩ | ⟨shut, _⟩
    · rw [one_mul] at built
      exact (built.parameterItems.expect (by decide) none).mono le_self_add
    · rw [opens] at shut
      cases shut
  · next shut =>
    rw [if_neg shut]
    refine .node reads ?_
    intro tidy
    rcases (Builds.start (m := m) tidy .parameters).demand lParen none (.unexpected .lParen) with
    ⟨opens, _⟩ | ⟨_, built⟩
    · exact absurd opens shut
    · rw [one_mul] at built
      exact built.mono le_add_self

theorem Builds.parameters {k : NodeKind} {L : Language Tree} {f : Frame} (h : f.Builds m k L) :
    f.parameters.Builds m k (L * Production.parameters) :=
  h.child (parameterList_yields _) fun _ => mem_node _

end Frame

namespace Expression

/-! ## Literals -/

theorem string_yields {p : Parser} (here : p.kind = .stringStart) :
    Yields m (fun t => t.nodeKind? = some .string) p (string p) := by
  refine .node (string_begins p).reads ?_
  intro tidy
  have start := Frame.Builds.opened (m := m) tidy .string here (by decide) (some .opening)
  exact (start.optional fun content => start.bump content (by decide) (some .content)).expect
    (by decide) (some .closing)

/-- The key of a field, of whichever shape. -/
theorem tableKey_builds (sound : inner.Sound m) {p : Parser} (tidy : p.Tidy) :
    (tableKey inner (p.start .field)).1.Builds m .field
      (1 + token .lBracket * expression m Power.assignment (some .key) * wanted m .rBracket *
          wanted m .equals +
        token .identifier (some .key) * token .equals) := by
  have start := Frame.Builds.start (m := m) tidy .field
  have rBracket : Kind.rBracket ≠ .eof := by decide
  have equals : Kind.equals ≠ .eof := by decide
  unfold tableKey
  split
  · next here =>
    have bracketed := (((Frame.Builds.opened tidy .field here (by decide) none).operand sound
      Power.assignment (some .key)).expect rBracket none).expect equals none
    exact (bracketed.mono le_add_self).mono le_self_add
  · next here =>
    dsimp only [Frame.second_eq]
    split
    · next assigned =>
      have same : p.second.2 = p := Parser.second_of_ne_eof (ne_of_eq_of_ne assigned (by decide))
      have there : (p.start .field).current ≠ .eof := ne_of_eq_of_ne here (by decide)
      have key := Frame.Builds.opened (m := m) tidy .field here (by decide) (some .key)
      have named := key.bump ((Frame.current_bump there _).trans assigned) (by decide) none
      show Frame.Builds m .field _ ({ p.start .field with parser := p.second.2 }.bump _).bump
      rw [same]
      exact named.mono le_add_self
    · exact (start.second.mono le_self_add).mono le_self_add
  · exact (start.mono le_self_add).mono le_self_add

theorem field_yields (sound : inner.Sound m) (p : Parser) :
    Yields m (fun t => t.nodeKind? = some .field) p
      ((tableKey inner (p.start .field)).1.child (some .value)
        (inner.binding (Power.assignment + 1))).finish := by
  have traced := sound.progresses.traced
  exact .node (.node .field rfl ((tableKey_grows traced _).child (traced.binding _ _))) fun tidy =>
    (tableKey_builds sound tidy).operand sound _ _

theorem table_yields (sound : inner.Sound m) {p : Parser} (here : p.kind = .lBrace) :
    Yields m (fun t => t.nodeKind? = some .tableConstructor) p (table inner p) := by
  refine .node (table_begins sound.progresses.traced p).reads ?_
  intro tidy
  have start := Frame.Builds.opened (m := m) tidy .tableConstructor here (by decide) none
  refine (start.rounds ?_ (.inl le_self_add)).expect (by decide) none
  intro M f built
  unfold tableStep
  split
  · next misplaced =>
    have there : f.current ≠ .eof := by rcases misplaced with h | h <;> rw [h] <;> decide
    exact .inl ⟨rfl, (built.skip f.parser.span .noTableField there).right⟩
  · dsimp only
    split
    · have field := built.attach (field_yields sound f.parser) fun _ => mem_node none
      split
      · next separated =>
        have bumped := field.bumpEither separated (by decide) (by decide) none
        rw [mul_assoc] at bumped
        exact .inl ⟨rfl, bumped.left⟩
      · exact .inr ⟨rfl, field.right⟩
    · next begins =>
      rw [tableKey_of_not_begins (by simpa using begins)]
      exact .inr ⟨rfl, built.without⟩

theorem function_yields (sound : inner.Sound m) {p : Parser} (here : p.kind = .kwFunction) :
    Yields m (fun t => t.nodeKind? = some .functionExpression) p (function inner p) := by
  refine .node (function_begins sound.progresses.traced p).reads ?_
  intro tidy
  have opened := Frame.Builds.opened (m := m) tidy .functionExpression here (by decide) none
  exact opened.parameters.closedBody sound rfl (by decide)

theorem parenthesized_yields (sound : inner.Sound m) {p : Parser} (here : p.kind = .lParen) :
    Yields m (fun t => t.nodeKind? = some .parenthesizedExpression) p (parenthesized inner p) := by
  refine .node (parenthesized_begins sound.progresses.traced p).reads ?_
  intro tidy
  have opened := Frame.Builds.opened (m := m) tidy .parenthesizedExpression here (by decide) none
  exact (opened.operand sound _ _).expect (by decide) none

end Expression

/-! ## Operands -/

namespace Tree

variable {t : Tree}

theorem IsPlain.operator? (h : t.IsPlain) : t.operator? = none := by
  unfold Tree.operator?
  split
  · next node => cases h _ node
  · next node => cases h _ node
  · rfl

/-- What is no operation may stand on the left of every operator. -/
theorem IsPlain.fitsLeft (h : t.IsPlain) (power : Nat) (side : Associativity) :
    t.FitsLeft power side where
  list node := by cases h _ node
  operator own side' op := by
    rw [h.operator?] at op
    cases op
  unary _ node := by cases h _ node

theorem IsPlain.binds (h : t.IsPlain) (power : Nat) : t.Binds power where
  list node := by cases h _ node
  operator own side op := by
    rw [h.operator?] at op
    cases op

theorem isPlain_of_node {kind : NodeKind} (node : t.nodeKind? = some kind)
    (plain : kind.isOperation = false) : t.IsPlain := by
  intro other same
  rw [node] at same
  cases same
  exact plain

/-- An expression that may be extended from behind. -/
structure IsOperand (m : Tolerance) (extensible : Bool) (t : Tree) : Prop where
  expression : t.IsExpression m
  plain : t.IsPlain
  base : extensible = true → t.IsBase

/-- A node that is an expression and no operation. -/
theorem isOperand_of_node {kind : NodeKind} {extensible : Bool} (node : t.nodeKind? = some kind)
    (expression : kind.isExpression = true) (plain : kind.isOperation = false)
    (base : extensible = true → kind.isBase = true) : t.IsOperand m extensible :=
  ⟨.node node expression, isPlain_of_node node plain, fun ext => .inr ⟨kind, node, base ext⟩⟩

end Tree

namespace Parser

theorem takeLeaf_yields {p : Parser} {kind : Kind} (here : p.kind = kind) (token : kind ≠ .eof) :
    Yields m (fun t => ∃ token, t = .token none token ∧ token.kind = kind) p p.takeLeaf := by
  obtain ⟨item, head, same⟩ := head_of_kind here token
  have taken : p.takeLeaf =
      (.token none item.token, { p.advance item with pending := p.pending ++ item.comments }) := by
    unfold takeLeaf
    rw [head]
  refine ⟨.leaf head, ?_⟩
  intro tidy _
  rw [taken]
  exact ⟨⟨item.token, rfl, same⟩, (tidy.of_head head).plain, Tree.lawful_token none item.token⟩

end Parser

namespace Expression

theorem leaf_yields {p : Parser} {kind : Kind} {extensible : Bool} (here : p.kind = kind)
    (operand : kind.isOperand = true) (base : extensible = true → kind = .identifier) :
    Yields m (Tree.IsOperand m extensible) p p.takeLeaf := by
  have token : kind ≠ .eof := by
    rintro rfl
    cases operand
  refine (Parser.takeLeaf_yields here token).imp ?_
  rintro _ ⟨leaf, rfl, rfl⟩
  exact ⟨.leaf operand, (fun _ node => by cases node), fun ext => .inl ⟨leaf, rfl, base ext⟩⟩

/-- A placeholder where no expression begins. -/
theorem absent_yields (p : Parser) :
    Yields m (Tree.IsOperand m false) p (p.missing .identifier, p.complain .noExpression) := by
  refine ⟨.absent, ?_⟩
  intro tidy admits
  have repairs := admits.repairs
  exact ⟨⟨.absent repairs, (fun _ node => by cases node), (fun ext => by cases ext)⟩, rfl,
    Tree.lawful_missing repairs _ _ _⟩

theorem primary_yields (sound : inner.Sound m) (p : Parser) :
    Yields m (Tree.IsOperand m (primary inner p).extensible) p
      ((primary inner p).tree, (primary inner p).parser) := by
  unfold primary
  split
  · next here => exact leaf_yields here rfl fun _ => rfl
  · next here => exact leaf_yields here rfl fun ext => by cases ext
  · next here => exact leaf_yields here rfl fun ext => by cases ext
  · next here =>
    exact (string_yields here).imp fun t node =>
      Tree.isOperand_of_node node rfl rfl fun ext => by cases ext
  · next here =>
    exact (table_yields sound here).imp fun t node =>
      Tree.isOperand_of_node node rfl rfl fun ext => by cases ext
  · next here =>
    exact (parenthesized_yields sound here).imp fun t node =>
      Tree.isOperand_of_node node rfl rfl fun _ => rfl
  · next here =>
    exact (function_yields sound here).imp fun t node =>
      Tree.isOperand_of_node node rfl rfl fun ext => by cases ext
  · exact absent_yields p

theorem arguments_yields (sound : inner.Sound m) {p : Parser}
    (here : p.kind.startsArguments = true) :
    Yields m (fun t => ∃ kind, t.nodeKind? = some kind ∧ kind.isArguments = true) p
      (arguments inner p) := by
  have reads := (arguments_begins sound.progresses.traced p).reads
  have traced := sound.progresses.traced
  rcases Kind.startsArguments_cases here with here | here | here <;>
    simp only [arguments, here] at reads ⊢
  · refine Yields.imp (.node (k := .arguments) reads fun tidy => ?_) fun t node => ⟨_, node, rfl⟩
    have start := Frame.Builds.opened (m := m) tidy .arguments here (by decide) none
    refine Frame.Builds.expect ?_ (by decide) none
    split
    · exact start.without
    · exact (start.commaSeparated (fun g => (Grows.refl g).child (traced.binding _ _))
        fun g built => built.operand sound _ none).right
  · exact (string_yields here).imp fun t node => ⟨_, node, rfl⟩
  · exact (table_yields sound here).imp fun t node => ⟨_, node, rfl⟩

theorem methodCall_builds (sound : inner.Sound m) {k : NodeKind} {L : Language Tree} {f : Frame}
    (h : f.Builds m k L) (here : f.current = .colon) : (methodCall inner f).Builds m k
      (L * method m * (Production.arguments + repaired m (placeholder .lParen (some .args)))) := by
  unfold methodCall
  dsimp only
  have named := (h.bump here (by decide) none).expectName .method
  rw [mul_assoc L] at named
  split
  · next starts =>
    exact (named.child (arguments_yields sound starts) fun _ => mem_nodeOf _).left
  · exact (named.repair _ _ _ _).right

/-- An operand begins the node that goes on from it. -/
theorem base_builds {p : Parser} {e : Operand}
    (h : Yields m (Tree.IsOperand m e.extensible) p (e.tree, e.parser))
    (ext : e.extensible = true) (tidy : p.Tidy) (kind : NodeKind) :
    (e.base kind).Builds m kind base :=
  .begun h tidy kind fun shape => mem_base (shape.base ext)

/-- A node that goes on from an operand may be extended again. -/
theorem suffix_yields {p : Parser} {f : Frame} (kind : NodeKind) (base : kind.isBase = true)
    (reads : Reads p f.finish.1 f.finish.2)
    (built : p.Tidy → f.Builds m kind (production m kind)) :
    Yields m (Tree.IsOperand m true) p f.finish := by
  obtain ⟨expression, plain⟩ := NodeKind.isExpression_of_isBase base
  exact (Yields.node reads built).imp fun _ node =>
    Tree.isOperand_of_node node expression plain fun _ => base

theorem update_yields {p : Parser} {e : Operand}
    (h : Yields m (Tree.IsOperand m e.extensible) p (e.tree, e.parser))
    (here : e.parser.kind = .plusPlus ∨ e.parser.kind = .minusMinus) :
    Yields m (Tree.IsOperand m false) p
      (((e.parser.start .updateExpression).attach (some .operand) e.tree).bump
        (some .operator)).finish := by
  refine Yields.imp (.node (k := .updateExpression)
    (.around .updateExpression rfl h.reads (Grows.refl _).bump) fun tidy => ?_) fun _ node =>
    Tree.isOperand_of_node node rfl rfl fun ext => by cases ext
  have operand : ((e.parser.start .updateExpression).attach (some .operand) e.tree).Builds m
      .updateExpression (plainOperand m (some .operand)) :=
    .begun h tidy _ fun shape => mem_plainOperand _ ⟨shape.expression, shape.plain⟩
  exact operand.bumpEither here (by decide) (by decide) _

theorem extend_yields (sound : inner.Sound m) {p : Parser} {e : Operand}
    (h : Yields m (Tree.IsOperand m e.extensible) p (e.tree, e.parser)) :
    Yields m (Tree.IsOperand m (extend inner e).1.extensible) p
      ((extend inner e).1.tree, (extend inner e).1.parser) := by
  have traced := sound.progresses.traced
  unfold extend
  split
  · next here ext =>
    refine suffix_yields .memberExpression rfl
      (.around _ rfl h.reads (Grows.refl _).bump.expectName) fun tidy => ?_
    have named := ((base_builds h ext tidy .memberExpression).bump here (by decide)
      none).expectName .name
    rw [mul_assoc] at named
    exact named
  · next here ext =>
    refine suffix_yields .indexExpression rfl
      (.around _ rfl h.reads ((Grows.refl _).bump.child (traced.binding _ _)).expect) fun tidy => ?_
    exact (((base_builds h ext tidy .indexExpression).bump here (by decide) none).operand sound
      _ _).expect (by decide) none
  · next here ext =>
    refine suffix_yields .functionCall rfl (.around _ rfl h.reads (methodCall_grows traced _))
      fun tidy => ?_
    exact (methodCall_builds sound (base_builds h ext tidy .functionCall) here).mono le_add_self
  · next here => exact update_yields h (.inl here)
  · next here => exact update_yields h (.inr here)
  · next ext _ _ _ _ _ =>
    split
    · next starts =>
      refine suffix_yields .functionCall rfl
        (.around _ rfl h.reads ((Grows.refl _).child (arguments_begins traced _).reads))
        fun tidy => ?_
      have called := (base_builds h ext tidy .functionCall).child
        (arguments_yields sound starts) fun _ => mem_nodeOf (some .args)
      exact called.mono le_self_add
    · exact h
  · exact h

theorem extended_yields (sound : inner.Sound m) {p : Parser} {e : Operand}
    (h : Yields m (Tree.IsOperand m e.extensible) p (e.tree, e.parser)) :
    ∃ extensible, Yields m (Tree.IsOperand m extensible) p (extended inner e) := by
  let last := Loop.run (fun e => e.parser.remaining) (extend inner) e
  refine ⟨last.extensible, Loop.run_rule
    (P := fun e : Operand => Yields m (Tree.IsOperand m e.extensible) p (e.tree, e.parser))
    (Q := fun e : Operand => Yields m (Tree.IsOperand m e.extensible) p (e.tree, e.parser))
    (fun e h _ => extend_yields sound h) (fun e h _ => extend_yields sound h)
    (fun e h _ _ => extend_yields sound h) h⟩

end Expression

/-! ## Operators -/

namespace Tree

/-- An expression of operators that bind at least as tightly as `power`, which an operator of the
kind `next` may take as its left operand. -/
structure Awaits (m : Tolerance) (power : Nat) (next : Kind) (t : Tree) : Prop where
  expression : t.IsExpression m
  binds : t.Binds power
  fits : m ≠ .full → ∀ own side, next.binary? = some (own, side) → t.FitsLeft own side

theorem IsOperand.awaits {t : Tree} {extensible : Bool} (h : t.IsOperand m extensible)
    (power : Nat) (next : Kind) : t.Awaits m power next :=
  ⟨h.expression, h.plain.binds power, fun _ own side _ => h.plain.fitsLeft own side⟩

/-- An operation of operators before their operand awaits operators that bind loosely. -/
theorem awaits_of_unary {t : Tree} (node : t.nodeKind? = some .unaryExpression) (power : Nat)
    {next : Kind} (stops : m ≠ .full → ∀ own side, next.binary? = some (own, side) →
      own < Power.unary) : t.Awaits m power next := by
  have plain : t.operator? = none := by
    unfold operator?
    rw [node]
  have list : t.nodeKind? ≠ some .expressionList := by
    rw [node]
    decide
  constructor
  case expression => exact .node node rfl
  case binds =>
    constructor
    · intro same
      exact absurd same list
    · intro own side op
      rw [plain] at op
      cases op
  case fits =>
    intro limited own side follows
    refine ⟨list, ?_, ?_⟩
    · intro own' side' op
      rw [plain] at op
      cases op
    · intro tight
      exact absurd tight (Nat.lt_asymm (stops limited own side follows))

/-- The operator of an operation is found among its parts. -/
theorem operator?_of_operation {t : Tree} {op : Kind} {own : Nat} {side : Associativity}
    (node : t.nodeKind? = some .binaryExpression ∨ t.nodeKind? = some .assignmentExpression)
    (binary : op.binary? = some (own, side)) (parts : t.parts ∈ operation m op own side) :
    t.operator? = some (own, side) := by
  obtain ⟨_, ⟨_, ⟨left, rfl, role, _⟩, _, ⟨_, rfl, token, rfl, rfl⟩, rfl⟩, _, ⟨right, rfl, _⟩, e⟩ :=
    parts
  have skipped : operatorToken? left = none := by
    unfold operatorToken?
    split
    · cases role
    · rfl
  have middle : operatorToken? (.token (some .operator) token) = some (own, side) := binary
  have found : t.parts.findSome? operatorToken? = some (own, side) := by
    rw [← e]
    show List.findSome? operatorToken? [left, Tree.token (some .operator) token, right] = _
    simp only [List.findSome?_cons, skipped, middle]
  unfold operator?
  rcases node with node | node <;> rw [node] <;> exact found

/-- An operation awaits what its right operand stopped before. -/
theorem awaits_of_operation {t : Tree} {op next : Kind} {own power : Nat} {side : Associativity}
    (node : t.nodeKind? = some .binaryExpression ∨ t.nodeKind? = some .assignmentExpression)
    (binary : op.binary? = some (own, side)) (parts : t.parts ∈ operation m op own side)
    (loose : power ≤ own) (stops : m ≠ .full → ∀ other side', next.binary? = some (other, side') →
      other < Expression.rightPower own side) : t.Awaits m power next := by
  have operator := operator?_of_operation node binary parts
  have list : t.nodeKind? ≠ some .expressionList := by
    rcases node with node | node <;> rw [node] <;> decide
  constructor
  case expression => rcases node with node | node <;> exact .node node rfl
  case binds =>
    constructor
    · intro same
      exact absurd same list
    · intro other side' same
      rw [operator] at same
      cases same
      exact loose
  case fits =>
    intro limited other side' follows
    refine ⟨list, ?_, ?_⟩
    · intro other' side'' same
      rw [operator] at same
      cases same
      have stop := stops limited other side' follows
      -- The next operator may be as tight as this one only if this one leans to the left, and then
      -- so does the next, since all operators of one power lean to one side.
      cases side with
      | right => exact .inl stop
      | left =>
          rcases Nat.lt_succ_iff_lt_or_eq.mp stop with tighter | rfl
          · exact .inl tighter
          · exact .inr ⟨rfl,
              (Kind.side_of_binary? follows).trans (Kind.side_of_binary? binary).symm⟩
    · intro _ unary
      rcases node with node | node <;> rw [node] at unary <;> cases unary

end Tree

namespace Expression

theorem operandFrom_yields (sound : inner.Sound m) {first : Parser → Operand} {p : Parser}
    (h : Yields m (Tree.IsOperand m (first p).extensible) p ((first p).tree, (first p).parser)) :
    Yields m (fun t => ∀ power, t.Awaits m power (operandFrom inner first p).2.kind) p
      (operandFrom inner first p) := by
  unfold operandFrom
  split
  · next op =>
    have here : (p.start .unaryExpression).current ≠ .eof := by
      intro eof
      rw [show p.kind = .eof from eof] at op
      cases op
    have node := Yields.node (unary_begins sound.progresses.traced p).reads fun tidy => by
      have bumped := (Frame.Builds.start (m := m) tidy .unaryExpression).bumpOf
        (X := tokenOf (·.isUnary = true) (some .operator)) (some .operator) here
        fun token same => ⟨_, rfl, token, rfl, same ▸ op⟩
      rw [one_mul] at bumped
      exact bumped.operand sound _ (some .operand)
    refine ⟨node.reads, fun tidy admits => (node.fits tidy admits).imp ?_⟩
    intro node power
    exact Tree.awaits_of_unary node power fun limited => sound.stops _ _ limited admits
  · obtain ⟨extensible, yields⟩ := extended_yields sound h
    exact yields.imp fun t operand power => operand.awaits power _

/-- A stray token and what follows it. -/
theorem stray_yields {p : Parser} {c : Complaint} {f : Frame} (here : p.kind ≠ .eof)
    (reads : Grows ((p.complain c).start .error).bump f)
    (built : (p.complain c).Tidy → f.Builds m .error (tokens * (1 + Production.operand m))) :
    Yields m (Tree.IsOperand m false) p f.finish := by
  refine ⟨.stray here reads, ?_⟩
  intro tidy admits
  have complained : ((p.complain c).start .error).parser.Later f.parser :=
    (Parser.Later.bump (.refl _)).trans reads.later
  have repairs := (admits.of_prefix complained.errors).repairs
  refine ((built (tidy.complainAt _ _)).finish (fun _ word => ⟨repairs, word⟩) admits).imp ?_
  intro shape
  exact ⟨.error shape.1 repairs, Tree.isPlain_of_node shape.1 rfl, fun ext => by cases ext⟩

theorem primaryOrStray_yields (sound : inner.Sound m) (p : Parser) :
    Yields m (Tree.IsOperand m (primaryOrStray inner p).extensible) p
      ((primaryOrStray inner p).tree, (primaryOrStray inner p).parser) := by
  have traced := sound.progresses.traced
  unfold primaryOrStray
  dsimp only
  split
  · next stray =>
    have here : ((p.complain .noExpression).start .error).current ≠ .eof := by
      intro eof
      rw [show p.kind = .eof from eof] at stray
      cases stray.1
    refine stray_yields (c := .noExpression) here ?_ fun tidy => ?_
    · split
      · exact (Grows.refl _).child (operandFrom_reads traced (primary_reads traced) _)
      · exact .refl _
    · have taken := (Frame.Builds.start (m := m) tidy .error).bumpAny here
      rw [one_mul] at taken
      exact taken.starred.optional fun _ => taken.starred.child
        (operandFrom_yields sound (primary_yields sound _)) fun _ shape =>
          mem_operand ⟨(shape 0).expression, fun power => (shape power).binds⟩
  · exact primary_yields sound p

theorem operand_yields (sound : inner.Sound m) (power : Nat) (p : Parser) :
    Yields m (Tree.Awaits m power (operand inner p).2.kind) p (operand inner p) :=
  (operandFrom_yields sound (primaryOrStray_yields sound p)).imp fun _ shape => shape power

/-! ### Operators between operands -/

theorem listStep_builds (sound : inner.Sound m) {k : NodeKind} {L : Language Tree} (f : Frame)
    (h : f.Builds m k L) :
    (listStep inner f).2 = true ∧ (listStep inner f).1.Builds m k
        (L * (token .comma * expression m Power.assignment)) ∨
      (listStep inner f).2 = false ∧ (listStep inner f).1.Builds m k L := by
  unfold listStep
  split
  · next comma =>
    rw [← mul_assoc]
    exact .inl ⟨rfl, (h.bump comma (by decide) none).operand sound _ none⟩
  · exact .inr ⟨rfl, h⟩

/-- After a list no operator is left: the last item stops before all but a comma, and the list does
not stop before that. -/
theorem list_stops (sound : inner.Sound m) (limited : m ≠ .full) {left : Tree} {p : Parser}
    (here : p.kind = .comma) (admits : m.Admits (list inner left p).2.errors.toList) :
    (list inner left p).2.kind.binary? = none := by
  have last : (list inner left p).2.kind ≠ .comma ∧
      (list inner left p).2.Stops m Power.assignment := by
    rw [list_eq]
    -- Before the first round nothing has stopped yet, but a comma is there.
    refine Loop.run_rule
      (P := fun f : Frame => f.current = .comma ∨ f.parser.Stops m Power.assignment)
      (Q := fun f : Frame => f.current ≠ .comma ∧ f.parser.Stops m Power.assignment)
      ?_ ?_ ?_ (.inl here)
    · intro f _ goes
      unfold listStep at goes ⊢
      split at goes
      · next comma =>
        rw [if_pos comma]
        exact .inr (sound.stops _ _)
      · cases goes
    · intro f before stop
      unfold listStep at stop ⊢
      split at stop
      · cases stop
      · next other =>
        rw [if_neg other]
        exact ⟨other, before.resolve_left other⟩
    · intro f _ goes stalls
      unfold listStep at goes stalls
      split at goes
      · next comma =>
        rw [if_pos comma] at stalls
        have item : Grows f.bump (f.bump.child none (inner.binding (Power.comma + 1))) :=
          (Grows.refl _).child (sound.progresses.traced.binding _ _)
        exact absurd stalls (Nat.not_le_of_lt (item.remaining_lt (by rw [comma]; decide)))
      · cases goes
  cases op : (list inner left p).2.kind.binary? with
  | none => rfl
  | some binding =>
      exact absurd (Kind.eq_comma_of_binary? op (last.2 limited admits _ _ op)) last.1

theorem list_yields (sound : inner.Sound m) {p : Parser} {e : Tree × Parser} {power : Nat}
    (h : Yields m (Tree.Awaits m power e.2.kind) p e) (here : e.2.kind = .comma)
    (loose : power ≤ Power.comma) :
    Yields m (Tree.Awaits m power (list inner e.1 e.2).2.kind) p (list inner e.1 e.2) := by
  have traced := sound.progresses.traced
  have reads : Reads p (list inner e.1 e.2).1 (list inner e.1 e.2).2 :=
    (list_wraps traced e).reads h.reads
  have node : Yields m (fun t => t.nodeKind? = some .expressionList) p (list inner e.1 e.2) := by
    refine .node reads ?_
    intro tidy
    have first : ((e.2.start .expressionList).attach none e.1).Builds m .expressionList
        (leftOperand m Power.comma .left) :=
      .begun h tidy _ fun shape =>
        mem_leftOperand none
        ⟨shape.expression, fun limited => shape.fits limited _ _ (by rw [here]; rfl)⟩
    refine first.several (listStep_builds sound) ?_
    rw [if_pos (by exact here)]
  refine ⟨reads, fun tidy admits => (node.fits tidy admits).imp ?_⟩
  intro node
  have plain : (list inner e.1 e.2).1.operator? = none := by
    unfold Tree.operator?
    rw [node]
  constructor
  case expression => exact .node node rfl
  case binds =>
    refine ⟨fun _ => loose, ?_⟩
    intro own side op
    rw [plain] at op
    cases op
  case fits =>
    intro limited own side follows
    rw [list_stops sound limited here admits] at follows
    cases follows

theorem joined_yields (sound : inner.Sound m) {p : Parser} {e : Tree × Parser} {power : Nat}
    (h : Yields m (Tree.Awaits m power e.2.kind) p e) {own : Nat} {side : Associativity}
    (op : e.2.kind.binary? = some (own, side)) (tight : power ≤ own) (single : e.2.kind ≠ .comma) :
    Yields m (Tree.Awaits m power (joined inner own side e).finish.2.kind) p
      (joined inner own side e).finish := by
  have token := Kind.ne_eof_of_binary? op
  let kind : NodeKind := if e.2.kind = .equals then .assignmentExpression else .binaryExpression
  have derived : operation m e.2.kind own side ≤ production m kind := by
    intro word mem
    by_cases equals : e.2.kind = .equals
    · rw [show kind = _ from if_pos equals]
      exact ⟨_, own, side, equals, op, mem⟩
    · rw [show kind = _ from if_neg equals]
      exact ⟨_, own, side, ⟨equals, single⟩, op, mem⟩
  have construct : kind.isConstruct = true := by
    show (if _ then _ else _ : NodeKind).isConstruct = true
    split <;> rfl
  have reads : Reads p (joined inner own side e).finish.1 (joined inner own side e).finish.2 :=
    .around kind construct h.reads
      ((Grows.refl _).bump.child (sound.progresses.traced.binding _ _))
  have yields : Yields m (fun t => t.nodeKind? = some kind ∧
      t.parts ∈ operation m e.2.kind own side) p (joined inner own side e).finish := by
    refine .of_frame reads (fun tidy => ?_) derived
    have left : ((e.2.start kind).attach (some .left) e.1).Builds m kind
        (leftOperand m own side (some .left)) :=
      .begun h tidy kind fun shape =>
        mem_leftOperand _ ⟨shape.expression, fun limited => shape.fits limited _ _ op⟩
    exact (left.bump rfl token (some .operator)).operand sound _ (some .right)
  refine ⟨reads, fun tidy admits => (yields.fits tidy admits).imp ?_⟩
  rintro ⟨same, parts⟩
  refine Tree.awaits_of_operation ?_ op parts tight fun limited => sound.stops _ _ limited admits
  rw [same, Option.some_inj, Option.some_inj]
  by_cases equals : e.2.kind = .equals
  · exact .inr (if_pos equals)
  · exact .inl (if_neg equals)

theorem join_yields (sound : inner.Sound m) {p : Parser} {e : Tree × Parser} {power : Nat}
    (h : Yields m (Tree.Awaits m power e.2.kind) p e) :
    Yields m (Tree.Awaits m power (join inner power e).1.2.kind) p (join inner power e).1 := by
  rcases join_cases inner power e with ⟨_, j⟩ | ⟨own, side, op, tight, ⟨comma, j⟩ | ⟨single, j⟩⟩ <;>
    rw [j]
  · exact h
  · rw [comma] at op
    cases op
    exact list_yields sound h comma tight
  · exact joined_yields sound h op tight single

theorem binding_yields (sound : inner.Sound m) (power : Nat) (p : Parser) :
    Yields m (fun t => t.IsExpression m ∧ t.Binds power) p (binding inner power p) := by
  have rounds : Yields m (Tree.Awaits m power (binding inner power p).2.kind) p
      (binding inner power p) :=
    Loop.run_rule
      (P := fun e : Tree × Parser => Yields m (Tree.Awaits m power e.2.kind) p e)
      (Q := fun e : Tree × Parser => Yields m (Tree.Awaits m power e.2.kind) p e)
      (fun e h _ => join_yields sound h) (fun e h _ => join_yields sound h)
      (fun e h _ _ => join_yields sound h) (operand_yields sound power p)
  exact rounds.imp fun t shape => ⟨shape.expression, shape.binds⟩

/-- Joining goes on as long as an operator binds tightly enough. -/
theorem binding_stops (traced : inner.Traced) (power : Nat) (p : Parser) :
    (binding inner power p).2.Stops m power := by
  intro _ _
  refine Loop.run_rule (P := fun _ => True) (Q := fun e : Tree × Parser =>
    ∀ own side, e.2.kind.binary? = some (own, side) → own < power)
    (fun _ _ _ => trivial) ?_ ?_ trivial
  · intro e _ stop
    rcases join_cases inner power e with ⟨loose, j⟩ | ⟨_, _, _, _, ⟨_, j⟩ | ⟨_, j⟩⟩ <;>
      rw [j] at stop ⊢
    · exact loose
    · cases stop
    · cases stop
  · intro e _ goes stalls
    exact absurd stalls (Nat.not_le_of_lt (join_remaining_lt traced goes))

end Expression

end JassSyntax
