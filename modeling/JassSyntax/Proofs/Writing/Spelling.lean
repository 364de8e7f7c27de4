import JassSyntax.Proofs.Reading.Items
import JassSyntax.Proofs.Writing.Syntax

/-!
# Writing programs out

The tree that a program is meant to have. A program is written out as the leaves of that tree, with
a semicolon after each of its statements. What is written has no place in a text yet, so a tree is
compared with what is meant after its places have been wiped out.
-/

namespace JassSyntax

/-- The token without its place. -/
def Token.bare (t : Token) : Token := { t with span := default }

/-- A token without a place. Unless a text is given it is the only one of its kind. -/
def Token.spelled (kind : Kind) (text : String := kind.spelling?.getD "") : Token :=
  ⟨kind, text, default⟩

@[simp] theorem Token.kind_spelled (kind : Kind) (text : String) :
    (spelled kind text).kind = kind := rfl

namespace Tree

mutual

/-- The tree without the places of its parts. -/
def bare : Tree → Tree
  | token r t => token r t.bare
  | missing r k _ => missing r k default
  | node r k _ cs => node r k default (bareAll cs)

def bareAll : List Tree → List Tree
  | [] => []
  | t :: ts => t.bare :: bareAll ts

end

@[simp] theorem bareAll_append (ts us : List Tree) :
    bareAll (ts ++ us) = bareAll ts ++ bareAll us := by
  induction ts with
  | nil => rfl
  | cons t ts ih => simp [bareAll, ih]

theorem bareAll_eq_nil {ts : List Tree} (h : bareAll ts = []) : ts = [] := by
  cases ts with
  | nil => rfl
  | cons t ts => cases h

@[simp] theorem bareAll_singleton (t : Tree) : bareAll [t] = [t.bare] := rfl

@[simp] theorem bare_withRole (r : Option Role) (t : Tree) :
    (t.withRole r).bare = t.bare.withRole r := by
  cases t <;> simp [withRole, bare]

@[simp] theorem bare_ofChildren (k : NodeKind) (p : Position) (ts : List Tree) :
    (ofChildren k p ts).bare = node none k default (bareAll ts) := by
  simp [ofChildren, bare]

end Tree

namespace Abstract

/-! ## Tokens and nodes without a place -/

def word (kind : Kind) (text : String) (role : Option Role := none) : Tree :=
  .token role (.spelled kind text)

/-- A keyword, an operator or a punctuation mark. -/
def mark (kind : Kind) (role : Option Role := none) : Tree := .token role (.spelled kind)

def ident (text : String) (role : Option Role := none) : Tree := word .identifier text role

def build (kind : NodeKind) (children : List Tree) : Tree := .node none kind default children

@[simp] theorem leaves_word (kind : Kind) (text : String) (role : Option Role) :
    (word kind text role).leaves = [.spelled kind text] := by
  rw [word, Tree.leaves]

@[simp] theorem leaves_mark (kind : Kind) (role : Option Role) :
    (mark kind role).leaves = [.spelled kind] := by
  rw [mark, Tree.leaves]

@[simp] theorem leaves_ident (text : String) (role : Option Role) :
    (ident text role).leaves = [.spelled .identifier text] :=
  leaves_word ..

@[simp] theorem leaves_build (kind : NodeKind) (children : List Tree) :
    (build kind children).leaves = Tree.leavesAll children := by
  rw [build, Tree.leaves]

/-- Trees with commas between them. -/
def listed (ts : List Tree) : List Tree := ts.intersperse (mark .comma)

@[simp] theorem listed_nil : listed [] = [] := rfl

@[simp] theorem listed_singleton (t : Tree) : listed [t] = [t] := rfl

@[simp] theorem listed_cons (t u : Tree) (us : List Tree) :
    listed (t :: u :: us) = t :: mark .comma :: listed (u :: us) :=
  List.intersperse_cons_cons ..

/-- The statements of a construct as its body, if there are any. -/
def bodyPart : List Tree → List Tree
  | [] => []
  | t :: ts => [(build .block (t :: ts)).withRole (some .body)]

/-- A construct with the closer at its end. -/
def closed (kind : NodeKind) (children : List Tree) (closer : Kind) : Tree :=
  build kind (children ++ [mark closer (some .closing)])

/-! ## Parts without expressions -/

def Quoted.tree (s : Quoted) : Tree :=
  build .string (word .stringStart s.opening (some .opening) ::
    (s.content.toList.map fun text => word .stringContent text (some .content)) ++
      [word .stringEnd s.closing (some .closing)])

def Parameter.tree (p : Parameter) : Tree :=
  build .parameter ((p.type.toList.map fun type => ident type (some .type)) ++
    [ident p.name (some .name)])

def parameterTree (ps : List Parameter) : Tree :=
  build .parameters (mark .lParen :: listed (ps.map Parameter.tree) ++ [mark .rParen])

def memberTrees (members : List String) : List Tree :=
  members.flatMap fun member => [mark .dot, ident member (some .name)]

def methodTrees (method : Option String) : List Tree :=
  method.toList.flatMap fun method => [mark .colon, ident method (some .method)]

/-- A name without members and without a method is a single token. -/
def FunctionName.tree (n : FunctionName) : Tree :=
  match memberTrees n.members ++ methodTrees n.method with
  | [] => ident n.first
  | parts => build .functionName (ident n.first (some .base) :: parts)

def modifierTrees (ms : List Modifier) : List Tree :=
  ms.map fun m => mark m.kind (some .modifier)

def Heading.trees : Heading → List Tree
  | untyped first more => modifierTrees (first :: more)
  | typed modifiers type arrays =>
    modifierTrees modifiers ++ ident type (some .type) ::
      List.replicate arrays (mark .kwArray (some .modifier))

/-- What stands behind each statement, which is an empty statement itself. -/
def semicolon : Tree := build .emptyStatement [mark .semicolon]

def BinaryOperator.node (op : BinaryOperator) : NodeKind :=
  if op.kind = .equals then .assignmentExpression else .binaryExpression

/-! ## Expressions and statements -/

mutual

def Expr.tree : Expr → Tree
  | .name text => ident text
  | .number text => word .number text
  | .float text => word .float text
  | .string s => s.tree
  | .table fields => build .tableConstructor (mark .lBrace :: fields.trees ++ [mark .rBrace])
  | .function ps body =>
    closed .functionExpression (mark .kwFunction ::
      (parameterTree ps).withRole (some .parameters) :: bodyPart (bodyTrees body)) .kwEnd
  | .group e =>
    build .parenthesizedExpression
      [mark .lParen, e.tree.withRole (some .value), mark .rParen]
  | .member base name =>
    build .memberExpression
      [base.tree.withRole (some .base), mark .dot, ident name (some .name)]
  | .index base i =>
    build .indexExpression
      [base.tree.withRole (some .base), mark .lBracket, i.tree.withRole (some .index),
        mark .rBracket]
  | .call base args =>
    build .functionCall
      [base.tree.withRole (some .base), args.tree.withRole (some .args)]
  | .methodCall base method args =>
    build .functionCall
      [base.tree.withRole (some .base), mark .colon, ident method (some .method),
        args.tree.withRole (some .args)]
  | .update e op =>
    build .updateExpression
      [e.tree.withRole (some .operand), mark op.kind (some .operator)]
  | .unary op e =>
    build .unaryExpression
      [mark op.kind (some .operator), e.tree.withRole (some .operand)]
  | .binary op l r =>
    build op.node
      [l.tree.withRole (some .left), mark op.kind (some .operator),
        r.tree.withRole (some .right)]
  | .list first second more =>
    build .expressionList (listed (first.tree :: second.tree :: trees more))

def trees : List Expr → List Tree
  | [] => []
  | e :: es => e.tree :: trees es

def Arguments.tree : Arguments → Tree
  | .values es => build .arguments (mark .lParen :: listed (trees es) ++ [mark .rParen])
  | .string s => s.tree
  | .table fields => build .tableConstructor (mark .lBrace :: fields.trees ++ [mark .rBrace])

def Fields.trees : Fields → List Tree
  | .none => []
  | .last f => [f.tree]
  | .more f separator rest => f.tree :: mark separator.kind :: rest.trees

def Field.tree : Field → Tree
  | .value e => build .field [e.tree.withRole (some .value)]
  | .named key e =>
    build .field
      [ident key (some .key), mark .equals, e.tree.withRole (some .value)]
  | .keyed key e =>
    build .field
      [mark .lBracket, key.tree.withRole (some .key), mark .rBracket, mark .equals,
        e.tree.withRole (some .value)]

def Declarator.tree : Declarator → Tree
  | .plain name => build .declarator [ident name (some .name)]
  | .assigned name e =>
    build .declarator
      [ident name (some .name), mark .equals, e.tree.withRole (some .value)]

def declaratorTrees : List Declarator → List Tree
  | [] => []
  | d :: ds => d.tree.withRole (some .declarator) :: declaratorTrees ds

def Stmt.tree : Stmt → Tree
  | .declaration heading first more =>
    build .variableDeclaration
      (heading.trees ++ listed (first.tree.withRole (some .declarator) :: declaratorTrees more))
  | .block b body => closed b.node (mark b.opener :: bodyPart (bodyTrees body)) b.closer
  | .struct name body =>
    closed .structDefinition (mark .kwStruct :: ident name (some .name) ::
      bodyPart (bodyTrees body)) .kwEndStruct
  | .whileLoop c body =>
    closed .whileStatement (mark .kwWhile :: c.tree.withRole (some .condition) :: mark .kwDo ::
      bodyPart (bodyTrees body)) .kwEnd
  | .repeatLoop body c =>
    build .repeatStatement (mark .kwRepeat :: bodyPart (bodyTrees body) ++
      [mark .kwUntil (some .closing), c.tree.withRole (some .condition)])
  | .conditional c body branches =>
    closed .ifStatement (mark .kwIf :: c.tree.withRole (some .condition) :: mark .kwThen ::
      bodyPart (bodyTrees body) ++ branches.trees) .kwEnd
  | .function name ps body =>
    closed .functionDefinition (mark .kwFunction :: name.tree.withRole (some .name) ::
      (parameterTree ps).withRole (some .parameters) :: bodyPart (bodyTrees body)) .kwEnd
  | .returns es =>
    build .returnStatement (mark .kwReturn ::
      listed ((trees es).map (·.withRole (some .value))))
  | .breaks => build .breakStatement [mark .kwBreak]
  | .empty => semicolon
  | .expression e => build .expressionStatement [e.tree]

/-- The statements of a body, each with a semicolon behind it. -/
def bodyTrees : List Stmt → List Tree
  | [] => []
  | s :: ss => s.tree :: semicolon :: bodyTrees ss

def Branches.trees : Branches → List Tree
  | .done => []
  | .otherwise body =>
    [(build .elseClause (mark .kwElse :: bodyPart (bodyTrees body))).withRole
      (some .alternative)]
  | .elseif c body rest =>
    (build .elseifClause (mark .kwElseIf :: c.tree.withRole (some .condition) ::
      mark .kwThen :: bodyPart (bodyTrees body))).withRole (some .alternative) :: rest.trees

end

theorem trees_eq_map (es : List Expr) : trees es = es.map Expr.tree := by
  induction es with
  | nil => rfl
  | cons e es ih => rw [trees, ih, List.map_cons]

theorem declaratorTrees_eq_map (ds : List Declarator) :
    declaratorTrees ds = ds.map fun d => d.tree.withRole (some .declarator) := by
  induction ds with
  | nil => rfl
  | cons d ds ih => rw [declaratorTrees, ih, List.map_cons]

theorem Expr.withRole_none (e : Expr) : e.tree.withRole none = e.tree := by
  cases e <;> rw [Expr.tree] <;> rfl

theorem Field.withRole_none (f : Field) : f.tree.withRole none = f.tree := by
  cases f <;> rw [Field.tree] <;> rfl

theorem Stmt.withRole_none (s : Stmt) : s.tree.withRole none = s.tree := by
  cases s <;> rw [Stmt.tree] <;> rfl

/-- The tree of a program. -/
def programTree (ss : List Stmt) : Tree := build .program (bodyTrees ss)

end Abstract

end JassSyntax
