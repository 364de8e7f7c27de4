import JassSyntax.Grammar.Block

/-!
# Expressions

Operators are read by precedence climbing: an operand, then as many operators between operands as
bind tightly enough, each of which takes what binds tighter on its right. Whatever lies inside an
expression is read by the level below.
-/

namespace JassSyntax

/-- An expression that may go on, and the parser after it. -/
structure Operand where
  tree : Tree
  /-- Whether a member, an index or arguments may follow: not after literals. -/
  extensible : Bool
  parser : Parser

namespace Operand

/-- The operand as the base of a node that goes on. -/
def base (e : Operand) (kind : NodeKind) : Frame :=
  (e.parser.start kind).attach (some .base) e.tree

/-- Finishes a node as an operand. -/
def ofFrame (f : Frame) (extensible : Bool) : Operand :=
  let (t, p) := f.finish
  ⟨t, extensible, p⟩

end Operand

namespace Expression

/-! ## Literals -/

/-- A string of up to three parts. -/
def string (p : Parser) : Tree × Parser :=
  let f := (p.start .string).bump (some .opening)
  let f := if f.current = .stringContent then f.bump (some .content) else f
  (f.expect .stringEnd (some .closing)).finish

/-- The key of a table field, up to its equals sign. Tells whether a field begins here at all. -/
def tableKey (inner : Level) (f : Frame) : Frame × Bool :=
  match f.current with
  | .lBracket =>
    (((f.bump.child (some .key) inner.expression).expect .rBracket).expect .equals, true)
  | .identifier =>
    let (next, f) := f.second
    (if next = .equals then (f.bump (some .key)).bump else f, true)
  | k => (f, k.canStartExpression)

/-- One field of a table and the separator after it, or one misplaced separator. Tells whether
another field may follow. The value of a field stops before an equals sign. -/
def tableStep (inner : Level) (f : Frame) : Frame × Bool :=
  if f.current = .comma ∨ f.current = .semicolon then
    ((f.complain .noTableField).skipAsError, true)
  else
    let (field, begins) := tableKey inner (f.parser.start .field)
    if begins then
      let value := field.child (some .value) (inner.binding (Power.assignment + 1))
      let f := f.child none fun _ => value.finish
      if f.current = .comma ∨ f.current = .semicolon then (f.bump, true) else (f, false)
    else ({ f with parser := field.parser }, false)

/-- A table: fields in braces, separated by commas or semicolons. -/
def table (inner : Level) (p : Parser) : Tree × Parser :=
  (((p.start .tableConstructor).bump.loop (tableStep inner)).expect .rBrace).finish

/-- A function without a name, as a value. -/
def function (inner : Level) (p : Parser) : Tree × Parser :=
  (((p.start .functionExpression).bump.parameters).closedBody inner).finish

/-- An expression in parentheses. -/
def parenthesized (inner : Level) (p : Parser) : Tree × Parser :=
  (((p.start .parenthesizedExpression).bump.child (some .value) inner.expressionList).expect
    .rParen).finish

/-! ## Operands -/

/-- What an expression begins with, operators aside. Where none begins, a placeholder is put in. -/
def primary (inner : Level) (p : Parser) : Operand :=
  let literal (r : Tree × Parser) : Operand := ⟨r.1, false, r.2⟩
  match p.kind with
  | .identifier => let (t, p) := p.takeLeaf; ⟨t, true, p⟩
  | .number | .float => literal p.takeLeaf
  | .stringStart => literal (string p)
  | .lBrace => literal (table inner p)
  | .lParen => let (t, p) := parenthesized inner p; ⟨t, true, p⟩
  | .kwFunction => literal (function inner p)
  | _ =>
    let p := p.complain .noExpression
    ⟨p.missing .identifier, false, p⟩

/-- The arguments of a call. -/
def arguments (inner : Level) (p : Parser) : Tree × Parser :=
  match p.kind with
  | .stringStart => string p
  | .lBrace => table inner p
  | _ =>
    let f := (p.start .arguments).bump
    let f :=
      if f.current = .rParen then f
      else f.commaSeparated fun f => f.child none inner.expression
    (f.expect .rParen).finish

/-- The rest of a method call after its colon. -/
def methodCall (inner : Level) (f : Frame) : Frame :=
  let f := f.bump.expectName .method
  if f.current.startsArguments then f.child (some .args) (arguments inner)
  else (f.complain .absentArguments).insertMissing (some .args) .lParen

/-- Extends an operand by one member, index, call or update. Tells whether there was one. -/
def extend (inner : Level) (e : Operand) : Operand × Bool :=
  match e.parser.kind, e.extensible with
  | .dot, true =>
    (.ofFrame ((e.base .memberExpression).bump.expectName .name) true, true)
  | .lBracket, true =>
    (.ofFrame (((e.base .indexExpression).bump.child (some .index) inner.expression).expect
      .rBracket) true, true)
  | .colon, true => (.ofFrame (methodCall inner (e.base .functionCall)) true, true)
  | .plusPlus, _ | .minusMinus, _ =>
    (.ofFrame (((e.parser.start .updateExpression).attach (some .operand) e.tree).bump
      (some .operator)) false, true)
  | k, true =>
    if k.startsArguments then
      (.ofFrame ((e.base .functionCall).child (some .args) (arguments inner)) true, true)
    else (e, false)
  | _, false => (e, false)

/-- An operand with everything that extends it. -/
def extended (inner : Level) (e : Operand) : Tree × Parser :=
  let e := Loop.run (fun e => e.parser.remaining) (extend inner) e
  (e.tree, e.parser)

/-- An operand: operators before it, or what `first` reads with all that extends it. -/
def operandFrom (inner : Level) (first : Parser → Operand) (p : Parser) : Tree × Parser :=
  if p.kind.isUnary then
    (((p.start .unaryExpression).bump (some .operator)).child (some .operand)
      (inner.binding Power.unary)).finish
  else extended inner (first p)

/-- What an expression begins with, or a stray token put aside with the operand right after it. -/
def primaryOrStray (inner : Level) (p : Parser) : Operand :=
  let k := p.kind
  if k.isStray ∧ !k.isClosingBracket then
    let f := ((p.complain .noExpression).start .error).bump
    .ofFrame (if f.current.canStartExpression then f.child none (operandFrom inner (primary inner))
      else f) false
  else primary inner p

/-- An operand of an operator between operands. -/
def operand (inner : Level) : Parser → Tree × Parser := operandFrom inner (primaryOrStray inner)

/-! ## Operators between operands -/

/-- Items after the one given, as long as commas follow. -/
def list (inner : Level) (first : Tree) (p : Parser) : Tree × Parser :=
  (((p.start .expressionList).attach none first).loop fun f =>
    if f.current = .comma then (f.bump.child none (inner.binding (Power.comma + 1)), true)
    else (f, false)).finish

/-- What the right operand of an operator has to bind at least as tightly as. -/
def rightPower (power : Nat) : Associativity → Nat
  | .left => power + 1
  | .right => power

/-- Joins the expression so far to what follows the next operator, if that binds at least as tightly
as `power`. Tells whether it does. -/
def join (inner : Level) (power : Nat) (left : Tree × Parser) : (Tree × Parser) × Bool :=
  match left.2.kind.binary? with
  | none => (left, false)
  | some (own, associativity) =>
    if own < power then (left, false)
    else if left.2.kind = .comma then (list inner left.1 left.2, true)
    else
      let kind : NodeKind :=
        if left.2.kind = .equals then .assignmentExpression else .binaryExpression
      let f := (((left.2.start kind).attach (some .left) left.1).bump (some .operator)).child
        (some .right) (inner.binding (rightPower own associativity))
      (f.finish, true)

/-- An expression of operators that bind at least as tightly as `power`. -/
def binding (inner : Level) (power : Nat) (p : Parser) : Tree × Parser :=
  Loop.run (fun e => e.2.remaining) (join inner power) (operand inner p)

end Expression

end JassSyntax
