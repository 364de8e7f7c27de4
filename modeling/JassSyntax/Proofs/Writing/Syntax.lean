import JassSyntax.Grammar.Expression

/-!
# Abstract programs

Programs without their text: what a program is built from, which of its expressions need no
parentheses, and how deep it nests. An expression that does is written with a `group` around it.
-/

namespace JassSyntax.Abstract

/-! ## Parts without expressions -/

/-- An operator between two operands. -/
structure BinaryOperator where
  kind : Kind
  power : Nat
  side : Associativity
  binds : kind.binary? = some (power, side)
  single : kind ≠ .comma

/-- An operator before its operand. -/
structure UnaryOperator where
  kind : Kind
  unary : kind.isUnary = true

/-- An operator behind its operand. -/
inductive Update where
  | increment
  | decrement

/-- What stands between two fields of a table. -/
inductive Separator where
  | comma
  | semicolon

/-- A word before the type or name of a declaration. -/
structure Modifier where
  kind : Kind
  modifies : kind.isModifier = true

/-- A string with its quotes. -/
structure Quoted where
  opening : String
  content : Option String
  closing : String

structure Parameter where
  type : Option String
  name : String

/-- The name of a function: a name, the members after it, and the method after them. -/
structure FunctionName where
  first : String
  members : List String
  method : Option String

/-- What stands before the names of a declaration. -/
inductive Heading where
  | untyped (first : Modifier) (more : List Modifier)
  | typed (modifiers : List Modifier) (type : String) (arrays : Nat)

/-- A block with nothing between its opener and its body. -/
inductive SimpleBlock where
  | globals
  | loop
  | plain

namespace Update

def kind : Update → Kind
  | increment => .plusPlus
  | decrement => .minusMinus

end Update

namespace Separator

def kind : Separator → Kind
  | comma => .comma
  | semicolon => .semicolon

end Separator

namespace SimpleBlock

def node : SimpleBlock → NodeKind
  | globals => .globalsBlock
  | loop => .loopStatement
  | plain => .doStatement

def opener : SimpleBlock → Kind
  | globals => .kwGlobals
  | loop => .kwLoop
  | plain => .kwDo

def closer : SimpleBlock → Kind
  | globals => .kwEndGlobals
  | loop => .kwEndLoop
  | plain => .kwEnd

theorem node_closer (b : SimpleBlock) : b.node.closer = some b.closer := by
  cases b <;> rfl

end SimpleBlock

/-! ## Expressions and statements -/

mutual

inductive Expr where
  | name (text : String)
  | number (text : String)
  | float (text : String)
  | string (s : Quoted)
  | table (fields : Fields)
  | function (parameters : List Parameter) (body : List Stmt)
  /-- An expression in parentheses. -/
  | group (inside : Expr)
  | member (base : Expr) (name : String)
  | index (base inside : Expr)
  | call (base : Expr) (arguments : Arguments)
  | methodCall (base : Expr) (method : String) (arguments : Arguments)
  | update (operand : Expr) (op : Update)
  | unary (op : UnaryOperator) (operand : Expr)
  /-- An assignment is an operation too. -/
  | binary (op : BinaryOperator) (left right : Expr)
  | list (first second : Expr) (more : List Expr)

inductive Arguments where
  | values (values : List Expr)
  | string (s : Quoted)
  | table (fields : Fields)

/-- The fields of a table. There may be a separator after the last. -/
inductive Fields where
  | none
  | last (field : Field)
  | more (field : Field) (separator : Separator) (rest : Fields)

inductive Field where
  | value (value : Expr)
  | named (name : String) (value : Expr)
  | keyed (key value : Expr)

inductive Declarator where
  | plain (name : String)
  | assigned (name : String) (value : Expr)

inductive Stmt where
  | declaration (heading : Heading) (first : Declarator) (more : List Declarator)
  | block (kind : SimpleBlock) (body : List Stmt)
  | struct (name : String) (body : List Stmt)
  | whileLoop (condition : Expr) (body : List Stmt)
  | repeatLoop (body : List Stmt) (condition : Expr)
  | conditional (condition : Expr) (body : List Stmt) (branches : Branches)
  | function (name : FunctionName) (parameters : List Parameter) (body : List Stmt)
  | returns (values : List Expr)
  | breaks
  | empty
  | expression (e : Expr)

/-- The branches of a conditional after its first. -/
inductive Branches where
  | done
  | otherwise (body : List Stmt)
  | elseif (condition : Expr) (body : List Stmt) (rest : Branches)

end

/-! ## Grouping -/

/-- Of expressions that no operator can reach into. -/
def Power.closed : Nat := 12

/-- What the left operand of an operator has to bind at least as tightly as. -/
def BinaryOperator.leftPower (op : BinaryOperator) : Nat :=
  match op.side with
  | .left => op.power
  | .right => op.power + 1

def BinaryOperator.rightPower (op : BinaryOperator) : Nat :=
  Expression.rightPower op.power op.side

namespace Expr

/-- How tightly the outermost operator of the expression binds. -/
def power : Expr → Nat
  | list .. => Power.comma
  | binary op .. => op.power
  | unary .. => Power.unary
  | _ => Power.closed

/-- Whether the expression can be read where operators bind at least as tightly as `least`. An
operator before its operand can be read everywhere. -/
def fits (least : Nat) : Expr → Bool
  | unary .. => true
  | e => least ≤ e.power

/-- Whether members, indices and arguments may follow. -/
def isBase : Expr → Bool
  | name _ | group _ | member .. | index .. | call .. | methodCall .. => true
  | _ => false

end Expr

mutual

/-- Whether all parts of the expression that need parentheses have them. -/
def Expr.grouped : Expr → Bool
  | .name _ | .number _ | .float _ | .string _ => true
  | .table fields => fields.grouped
  | .function _ body => groupedBody body
  | .group e => e.grouped
  | .member base _ => base.isBase && base.grouped
  | .index base i => base.isBase && base.grouped && i.fits Power.assignment && i.grouped
  | .call base args => base.isBase && base.grouped && args.grouped
  | .methodCall base _ args => base.isBase && base.grouped && args.grouped
  | .update e _ => Power.closed ≤ e.power && e.grouped
  | .unary _ e => e.fits Power.unary && e.grouped
  | .binary op l r => op.leftPower ≤ l.power && l.grouped && r.fits op.rightPower && r.grouped
  | .list first second more =>
    Power.assignment ≤ first.power && first.grouped && second.fits Power.assignment &&
      second.grouped && groupedAll more

/-- Expressions between commas. -/
def groupedAll : List Expr → Bool
  | [] => true
  | e :: es => e.fits Power.assignment && e.grouped && groupedAll es

def Arguments.grouped : Arguments → Bool
  | .values es => groupedAll es
  | .string _ => true
  | .table fields => fields.grouped

def Fields.grouped : Fields → Bool
  | .none => true
  | .last f => f.grouped
  | .more f _ rest => f.grouped && rest.grouped

def Field.grouped : Field → Bool
  | .value e => e.fits (Power.assignment + 1) && e.grouped
  | .named _ e => e.fits (Power.assignment + 1) && e.grouped
  | .keyed key e =>
    key.fits Power.assignment && key.grouped && e.fits (Power.assignment + 1) && e.grouped

def Declarator.grouped : Declarator → Bool
  | .plain _ => true
  | .assigned _ e => e.fits Power.assignment && e.grouped

def groupedDeclarators : List Declarator → Bool
  | [] => true
  | d :: ds => d.grouped && groupedDeclarators ds

def Stmt.grouped : Stmt → Bool
  | .declaration _ first more => first.grouped && groupedDeclarators more
  | .block _ body | .struct _ body | .function _ _ body => groupedBody body
  | .whileLoop c body | .repeatLoop body c =>
    c.fits Power.assignment && c.grouped && groupedBody body
  | .conditional c body branches =>
    c.fits Power.assignment && c.grouped && groupedBody body && branches.grouped
  | .returns es => groupedAll es
  | .breaks | .empty => true
  | .expression e => e.grouped

def groupedBody : List Stmt → Bool
  | [] => true
  | s :: ss => s.grouped && groupedBody ss

def Branches.grouped : Branches → Bool
  | .done => true
  | .otherwise body => groupedBody body
  | .elseif c body rest => c.fits Power.assignment && c.grouped && groupedBody body && rest.grouped

end

/-! ## Nesting -/

mutual

/-- How many levels of nesting there are inside an expression. -/
def Expr.depth : Expr → Nat
  | .name _ | .number _ | .float _ | .string _ => 0
  | .table fields => fields.depth
  | .function _ body => 1 + bodyDepth body
  | .group e => 1 + e.depth
  | .member base _ => base.depth
  | .index base i => max base.depth (1 + i.depth)
  | .call base args | .methodCall base _ args => max base.depth args.depth
  | .update e _ => e.depth
  | .unary _ e => 1 + e.depth
  | .binary _ l r => max l.depth (1 + r.depth)
  | .list first second more => max first.depth (max (1 + second.depth) (depthAll more))

/-- Each of several expressions is a level of its own. -/
def depthAll : List Expr → Nat
  | [] => 0
  | e :: es => max (1 + e.depth) (depthAll es)

def Arguments.depth : Arguments → Nat
  | .values es => depthAll es
  | .string _ => 0
  | .table fields => fields.depth

def Fields.depth : Fields → Nat
  | .none => 0
  | .last f => f.depth
  | .more f _ rest => max f.depth rest.depth

def Field.depth : Field → Nat
  | .value e | .named _ e => 1 + e.depth
  | .keyed key e => max (1 + key.depth) (1 + e.depth)

def Declarator.depth : Declarator → Nat
  | .plain _ => 0
  | .assigned _ e => 1 + e.depth

def declaratorsDepth : List Declarator → Nat
  | [] => 0
  | d :: ds => max d.depth (declaratorsDepth ds)

/-- How many levels of nesting there are inside a statement. A body is one, also an empty one. -/
def Stmt.depth : Stmt → Nat
  | .declaration _ first more => max first.depth (declaratorsDepth more)
  | .block _ body | .struct _ body | .function _ _ body => 1 + bodyDepth body
  | .whileLoop c body | .repeatLoop body c => max (1 + c.depth) (1 + bodyDepth body)
  | .conditional c body branches => max (1 + c.depth) (max (1 + bodyDepth body) branches.depth)
  | .returns es => depthAll es
  | .breaks | .empty => 0
  | .expression e => 1 + e.depth

def bodyDepth : List Stmt → Nat
  | [] => 0
  | s :: ss => max s.depth (bodyDepth ss)

def Branches.depth : Branches → Nat
  | .done => 0
  | .otherwise body => 1 + bodyDepth body
  | .elseif c body rest => max (1 + c.depth) (max (1 + bodyDepth body) rest.depth)

end

theorem depth_le_bodyDepth {s : Stmt} {ss : List Stmt} (mem : s ∈ ss) :
    s.depth ≤ bodyDepth ss := by
  induction ss with
  | nil => cases mem
  | cons x ss ih =>
      rw [bodyDepth]
      rcases List.mem_cons.mp mem with rfl | mem
      · exact Nat.le_max_left _ _
      · exact Nat.le_trans (ih mem) (Nat.le_max_right _ _)

end JassSyntax.Abstract
