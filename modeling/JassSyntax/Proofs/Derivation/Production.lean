import JassSyntax.Grammar.Expression
import JassSyntax.Proofs.Tree.Comments
import JassSyntax.Proofs.Tree.Everywhere
import JassSyntax.Problem.Basic
import JassSyntax.Tree.Walk
import Mathlib.Computability.Language
import Mathlib.Order.CompletePartialOrder

/-!
# The grammar as productions

Each kind of node has a language: the sequences of children that it may have, comments aside. The
languages are regular and built from single trees, of which only the outermost shape counts. How
much a text may deviate from the grammar is a parameter. In a text without errors nothing is
repaired, and the productions are the grammar that the library documents.
-/

namespace JassSyntax

open Computability

/-- How much may be wrong with a text. -/
inductive Tolerance where
  /-- Nothing. -/
  | clean
  /-- Anything but nesting beyond the limit. -/
  | shallow
  /-- Anything. -/
  | full
  deriving DecidableEq

namespace Tolerance

/-- Whether a list of errors shows no more than is tolerated. -/
def Admits : Tolerance → List ParseError → Prop
  | clean, errors => errors = []
  | shallow, errors => ∀ e ∈ errors, e.kind ≠ .nestingTooDeep
  | full, _ => True

/-- What tolerates a list of errors tolerates its beginnings. -/
theorem Admits.of_prefix {m : Tolerance} {es fs : List ParseError} (h : m.Admits fs)
    (le : es <+: fs) : m.Admits es := by
  cases m with
  | clean =>
      rw [Admits] at h ⊢
      exact List.prefix_nil.mp (h ▸ le)
  | shallow => exact fun e he => h e (le.subset he)
  | full => trivial

end Tolerance

/-! ## Operators in trees -/

namespace Tree

/-- The binding of an operator between operands, of a token that plays that role. -/
def operatorToken? : Tree → Option (Nat × Associativity)
  | token (some .operator) t => t.kind.binary?
  | _ => none

/-- The binding of the operator of an operation between operands. -/
def operator? (t : Tree) : Option (Nat × Associativity) :=
  match t.nodeKind? with
  | some .binaryExpression | some .assignmentExpression => t.parts.findSome? operatorToken?
  | _ => none

/-- The tree is an expression of operators that bind at least as tightly as `power`. -/
structure Binds (power : Nat) (t : Tree) : Prop where
  list : t.nodeKind? = some .expressionList → power ≤ Power.comma
  operator : ∀ own side, t.operator? = some (own, side) → power ≤ own

/-- The tree can be the left operand of an operator. -/
structure FitsLeft (power : Nat) (side : Associativity) (t : Tree) : Prop where
  list : t.nodeKind? ≠ some .expressionList
  operator : ∀ own side', t.operator? = some (own, side') →
    power < own ∨ power = own ∧ side = .left
  unary : Power.unary < power → t.nodeKind? ≠ some .unaryExpression

end Tree

/-! ## Classes of trees -/

/-- Tokens that are expressions of their own. -/
def Kind.isOperand : Kind → Bool
  | .identifier | .number | .float => true
  | _ => false

namespace NodeKind

def isExpression : NodeKind → Bool
  | .binaryExpression | .unaryExpression | .updateExpression | .assignmentExpression
  | .expressionList | .parenthesizedExpression | .memberExpression | .indexExpression
  | .functionCall | .tableConstructor | .string | .functionExpression => true
  | _ => false

/-- Nodes with operators between their parts or before them. -/
def isOperation : NodeKind → Bool
  | .binaryExpression | .unaryExpression | .assignmentExpression | .expressionList => true
  | _ => false

/-- Nodes that members, indices and arguments may follow. -/
def isBase : NodeKind → Bool
  | .parenthesizedExpression | .memberExpression | .indexExpression | .functionCall => true
  | _ => false

theorem isExpression_of_isBase {k : NodeKind} (h : k.isBase = true) :
    k.isExpression = true ∧ k.isOperation = false := by
  revert h
  cases k <;> decide

def isArguments : NodeKind → Bool
  | .arguments | .string | .tableConstructor => true
  | _ => false

def isStatement : NodeKind → Bool
  | .variableDeclaration | .globalsBlock | .structDefinition | .loopStatement | .doStatement
  | .whileStatement | .repeatStatement | .ifStatement | .functionDefinition | .returnStatement
  | .breakStatement | .emptyStatement | .expressionStatement => true
  | _ => false

end NodeKind

namespace Production

/-- One tree of a class. -/
def one (C : Tree → Prop) : Language Tree := { w | ∃ t, w = [t] ∧ C t }

/-- A token in a role. -/
def tokenOf (passes : Kind → Prop) (role : Option Role := none) : Language Tree :=
  one fun t => ∃ token, t = .token role token ∧ passes token.kind

def token (kind : Kind) (role : Option Role := none) : Language Tree := tokenOf (· = kind) role

/-- One or more tokens of any kind. -/
def tokens : Language Tree := tokenOf (fun _ => True) * (tokenOf fun _ => True)∗

/-- A node in a role. -/
def nodeOf (passes : NodeKind → Prop) (role : Option Role := none) : Language Tree :=
  one fun t => t.role = role ∧ ∃ kind, t.nodeKind? = some kind ∧ passes kind

def node (kind : NodeKind) (role : Option Role := none) : Language Tree := nodeOf (· = kind) role

def placeholder (kind : Kind) (role : Option Role := none) : Language Tree :=
  one fun t => ∃ position, t = .missing role kind position

/-- One or more words with commas between them. -/
def commaSeparated (L : Language Tree) : Language Tree := (L * token .comma)∗ * L

end Production

/-- An expression, or what stands for one. -/
inductive Tree.IsExpression (m : Tolerance) : Tree → Prop
  | leaf {role : Option Role} {t : Token} (h : t.kind.isOperand = true) :
      IsExpression m (.token role t)
  | node {t : Tree} {kind : NodeKind} (h : t.nodeKind? = some kind)
      (expression : kind.isExpression = true) : IsExpression m t
  | absent {role : Option Role} {position : Position} (repairs : m ≠ .clean) :
      IsExpression m (.missing role .identifier position)
  | error {t : Tree} (h : t.nodeKind? = some .error) (repairs : m ≠ .clean) : IsExpression m t

/-- A name, or a node that members, indices and arguments may follow. -/
def Tree.IsBase (t : Tree) : Prop :=
  (∃ token, t.token? = some token ∧ token.kind = .identifier) ∨
    ∃ kind, t.nodeKind? = some kind ∧ kind.isBase = true

/-- The tree is no operation, so that it needs no parentheses anywhere. -/
def Tree.IsPlain (t : Tree) : Prop :=
  ∀ kind, t.nodeKind? = some kind → kind.isOperation = false

namespace Production

variable (m : Tolerance)

/-- Words that only a text with errors can have. -/
def repaired (L : Language Tree) : Language Tree := { w | m ≠ .clean ∧ w ∈ L }

/-- A token put aside. -/
def junk : Language Tree := repaired m (node .error)

/-- A token that the grammar demands: there, or behind one that is put aside, or replaced. -/
def wanted (kind : Kind) (role : Option Role := none) : Language Tree :=
  token kind role + (junk m * token kind role + repaired m (placeholder kind role))

/-- An expression of operators that bind at least as tightly as `power`. -/
def expression (power : Nat) (role : Option Role := none) : Language Tree :=
  one fun t => t.role = role ∧ t.IsExpression m ∧ t.Binds power

/-- An expression without operators between operands. -/
def operand : Language Tree :=
  one fun t => t.role = none ∧ t.IsExpression m ∧ ∀ power, t.Binds power

/-- What a member, an index or arguments follow. -/
def base : Language Tree := one fun t => t.role = some .base ∧ t.IsBase

/-- The operand of an operator behind it. -/
def plainOperand (role : Option Role) : Language Tree :=
  one fun t => t.role = role ∧ t.IsExpression m ∧ t.IsPlain

/-- The left operand of an operator. Beyond the nesting limit it need not fit. -/
def leftOperand (power : Nat) (side : Associativity) (role : Option Role := none) :
    Language Tree :=
  one fun t => t.role = role ∧ t.IsExpression m ∧ (m ≠ .full → t.FitsLeft power side)

/-- An operator of the given binding between its operands. -/
def operation (op : Kind) (power : Nat) (side : Associativity) : Language Tree :=
  leftOperand m power side (some .left) * token op (some .operator) *
    expression m (Expression.rightPower power side) (some .right)

/-- An operation of one of several operators. -/
def operationOf (passes : Kind → Prop) : Language Tree :=
  { w | ∃ op power side,
    passes op ∧ op.binary? = some (power, side) ∧ w ∈ operation m op power side }

/-- The statements of a construct, if it has any. -/
def body : Language Tree := 1 + node .block (some .body)

/-- The closing keyword of a construct. -/
def closing (kind : Kind) : Language Tree :=
  token kind (some .closing) + repaired m (placeholder kind (some .closing))

/-- A statement, or a token that begins none. -/
def statement : Language Tree := nodeOf (·.isStatement = true) + junk m

/-- The name and the parts of a name after its first. -/
def member : Language Tree := token .dot * wanted m .identifier (some .name)

def method : Language Tree := token .colon * wanted m .identifier (some .method)

def arguments : Language Tree := nodeOf (·.isArguments = true) (some .args)

def parameters : Language Tree := node .parameters (some .parameters)

def modifier : Language Tree := tokenOf (·.isModifier = true) (some .modifier)

/-- What separates the fields of a table. -/
def separator : Language Tree := token .comma + token .semicolon

end Production

open Production in
/-- The sequences of children that a node of each kind may have, comments aside. -/
def production (m : Tolerance) : NodeKind → Language Tree
  | .program => (statement m)∗
  | .block => statement m * (statement m)∗
  | .blockComment => 0
  | .variableDeclaration =>
    (modifier * modifier∗ +
        modifier∗ * wanted m .identifier (some .type) * (token .kwArray (some .modifier))∗) *
      commaSeparated (node .declarator (some .declarator))
  | .declarator =>
    wanted m .identifier (some .name) *
      (1 + token .equals * expression m Power.assignment (some .value))
  | .globalsBlock => token .kwGlobals * body * closing m .kwEndGlobals
  | .structDefinition =>
    token .kwStruct * wanted m .identifier (some .name) * body * closing m .kwEndStruct
  | .loopStatement => token .kwLoop * body * closing m .kwEndLoop
  | .doStatement => token .kwDo * body * closing m .kwEnd
  | .whileStatement =>
    token .kwWhile * expression m Power.assignment (some .condition) * wanted m .kwDo * body *
      closing m .kwEnd
  | .repeatStatement =>
    token .kwRepeat * body *
      (token .kwUntil (some .closing) * expression m Power.assignment (some .condition) +
        repaired m (placeholder .kwUntil (some .closing)))
  | .ifStatement =>
    token .kwIf * expression m Power.assignment (some .condition) * wanted m .kwThen * body *
      (node .elseifClause (some .alternative))∗ * (1 + node .elseClause (some .alternative)) *
      closing m .kwEnd
  | .elseifClause =>
    token .kwElseIf * expression m Power.assignment (some .condition) * wanted m .kwThen * body
  | .elseClause => token .kwElse * body
  | .functionDefinition =>
    token .kwFunction * (wanted m .identifier (some .name) + node .functionName (some .name)) *
      parameters * body * closing m .kwEnd
  | .functionName =>
    token .identifier (some .base) *
      (member m * (member m)∗ * (1 + method m) + method m)
  | .parameters =>
    (token .lParen + junk m * token .lParen) *
        (node .parameter * token .comma)∗ * (1 + node .parameter) * wanted m .rParen +
      repaired m (placeholder .lParen)
  | .parameter => (1 + token .identifier (some .type)) * token .identifier (some .name)
  | .returnStatement =>
    token .kwReturn * (1 + commaSeparated (expression m Power.assignment (some .value)))
  | .breakStatement => token .kwBreak
  | .emptyStatement => token .semicolon
  | .expressionStatement => expression m Power.comma
  | .binaryExpression => operationOf m fun op => op ≠ .equals ∧ op ≠ .comma
  | .unaryExpression =>
    tokenOf (·.isUnary = true) (some .operator) * expression m Power.unary (some .operand)
  | .updateExpression =>
    plainOperand m (some .operand) *
      (token .plusPlus (some .operator) + token .minusMinus (some .operator))
  | .assignmentExpression => operationOf m (· = .equals)
  | .expressionList =>
    leftOperand m Power.comma .left *
      (token .comma * expression m Power.assignment *
        (token .comma * expression m Power.assignment)∗)
  | .parenthesizedExpression =>
    token .lParen * expression m Power.comma (some .value) * wanted m .rParen
  | .memberExpression => base * member m
  | .indexExpression =>
    base * token .lBracket * expression m Power.assignment (some .index) * wanted m .rBracket
  | .functionCall =>
    base * arguments +
      base * method m * (arguments + repaired m (placeholder .lParen (some .args)))
  | .arguments =>
    token .lParen * (1 + commaSeparated (expression m Power.assignment)) * wanted m .rParen
  | .tableConstructor =>
    token .lBrace * (node .field * separator + junk m)∗ * (1 + node .field) * wanted m .rBrace
  | .field =>
    (1 + token .lBracket * expression m Power.assignment (some .key) * wanted m .rBracket *
        wanted m .equals +
      token .identifier (some .key) * token .equals) *
      expression m (Power.assignment + 1) (some .value)
  | .string =>
    token .stringStart (some .opening) * (1 + token .stringContent (some .content)) *
      wanted m .stringEnd (some .closing)
  | .functionExpression => token .kwFunction * parameters * body * closing m .kwEnd
  | .error => repaired m (tokens * (1 + operand m))

end JassSyntax
