import JassSyntax.Grammar.Expression

/-!
# Statements

A statement is known by its first token, or by its first two where it begins with a name or with
`function`. Conditions, values and bodies are read by the level below.
-/

namespace JassSyntax.Statement

/-! ## Blocks -/

/-- A construct with nothing between its first keyword and its body. -/
def simpleBlock (inner : Level) (kind : NodeKind) (p : Parser) : Tree × Parser :=
  ((p.start kind).bump.closedBody inner).finish

def struct (inner : Level) (p : Parser) : Tree × Parser :=
  (((p.start .structDefinition).bump.expectName .name).closedBody inner).finish

def whileLoop (inner : Level) (p : Parser) : Tree × Parser :=
  let f := (p.start .whileStatement).bump.child (some .condition) inner.expression
  ((f.expect .kwDo).closedBody inner).finish

/-- A loop with its condition behind the closer. Without the closer there is no condition. -/
def repeatLoop (inner : Level) (p : Parser) : Tree × Parser :=
  let f := (p.start .repeatStatement).bump.within [.kwUntil] (inner.body [.kwUntil])
  let closed := f.current = .kwUntil
  let f := f.close
  (if closed then f.child (some .condition) inner.expression else f).finish

/-! ## Branches -/

/-- What ends the body of a branch that others may follow. -/
def branchEnds : List Kind := [.kwElseIf, .kwElse, .kwEnd]

/-- A condition, `then` and a body. -/
def branch (inner : Level) (f : Frame) : Frame :=
  let f := f.bump.child (some .condition) inner.expression
  f.expect .kwThen

def elseifClause (inner : Level) (p : Parser) : Tree × Parser :=
  (inner.body branchEnds (branch inner (p.start .elseifClause))).finish

def elseClause (inner : Level) (p : Parser) : Tree × Parser :=
  (inner.body [.kwEnd] (p.start .elseClause).bump).finish

/-- All branches of a conditional after its first condition. -/
def branches (inner : Level) (f : Frame) : Frame :=
  let f := (inner.body branchEnds f).loop fun f =>
    if f.current = .kwElseIf then (f.child (some .alternative) (elseifClause inner), true)
    else (f, false)
  if f.current = .kwElse then f.child (some .alternative) (elseClause inner) else f

def conditional (inner : Level) (p : Parser) : Tree × Parser :=
  ((branch inner (p.start .ifStatement)).within branchEnds (branches inner)).close.finish

/-! ## Functions -/

/-- The parts of a name after its first: members after points, and a method after a colon. -/
def qualifiers (f : Frame) : Frame :=
  let f := f.loop fun f =>
    if f.current = .dot then (f.bump.expectName .name, true) else (f, false)
  if f.current = .colon then f.bump.expectName .method else f

/-- The name of a function. A name of several parts is a node of its own. -/
def functionName (f : Frame) : Frame :=
  let (next, f) := f.second
  if next = .dot ∨ next = .colon then
    f.child (some .name) fun p =>
      (qualifiers ((p.start .functionName).bump (some .base))).finish
  else f.expectName .name

def functionDefinition (inner : Level) (p : Parser) : Tree × Parser :=
  ((functionName (p.start .functionDefinition).bump).parameters.closedBody inner).finish

/-! ## Declarations -/

/-- A name and its value, if one is assigned. -/
def declarator (inner : Level) (p : Parser) : Tree × Parser :=
  let (f, assigned) := ((p.start .declarator).expectName .name).eat .equals
  (if assigned then f.child (some .value) inner.expression else f).finish

/-- The type of a declaration. After modifiers it may be left out. -/
def declaredType (modified : Bool) (f : Frame) : Frame :=
  let (next, f) := if f.current = .identifier then f.second else (.eof, f)
  if next = .identifier ∨ next = .kwArray then
    (f.bump (some .type)).bumpWhile (some .modifier) (· = .kwArray)
  else if modified ∧ f.current = .identifier then f
  else f.expectName .type

def declaration (inner : Level) (p : Parser) : Tree × Parser :=
  let f := (p.start .variableDeclaration).bumpWhile (some .modifier) Kind.isModifier
  ((declaredType p.kind.isModifier f).commaSeparated fun f =>
    f.child (some .declarator) (declarator inner)).finish

/-! ## All statements -/

/-- A statement of one token. -/
def single (kind : NodeKind) (p : Parser) : Tree × Parser := (p.start kind).bump.finish

def returnStatement (inner : Level) (p : Parser) : Tree × Parser :=
  let f := (p.start .returnStatement).bump
  (if f.current.canStartExpression then
    f.commaSeparated fun f => f.child (some .value) inner.expression
  else f).finish

def expression (inner : Level) (p : Parser) : Tree × Parser :=
  ((p.start .expressionStatement).child none inner.expressionList).finish

/-- One statement. -/
def statement (inner : Level) (p : Parser) : Tree × Parser :=
  match p.kind with
  | .kwLocal | .kwConstant | .kwArray => declaration inner p
  | .identifier =>
    let (next, p) := p.second
    if next = .identifier ∨ next = .kwArray then declaration inner p else expression inner p
  | .kwGlobals => simpleBlock inner .globalsBlock p
  | .kwStruct => struct inner p
  | .kwLoop => simpleBlock inner .loopStatement p
  | .kwDo => simpleBlock inner .doStatement p
  | .kwWhile => whileLoop inner p
  | .kwRepeat => repeatLoop inner p
  | .kwIf => conditional inner p
  | .kwFunction =>
    let (next, p) := p.second
    if next = .identifier then functionDefinition inner p else expression inner p
  | .kwReturn => returnStatement inner p
  | .kwBreak => single .breakStatement p
  | .semicolon => single .emptyStatement p
  | _ => expression inner p

/-- One statement of a body, or one token that begins none, put aside. Tells whether there was
either before one of the terminators, a closer of an open block or the end of input. -/
def bodyStep (inner : Level) (construct : NodeKind) (terminators : List Kind) (f : Frame) :
    Frame × Bool :=
  let k := f.current
  if k = .eof ∨ terminators.contains k ∨ f.parser.closesOpenBlock k then (f, false)
  else if k.canStartStatement then (f.child none (statement inner), true)
  else
    let complaint : Complaint :=
      if k.isClosingKeyword then .closesNothing terminators else .strayInside construct terminators
    ((f.complain complaint).skipAsError, true)

/-- The statements up to one of the terminators, as the body of the construct if there are any. -/
def body (inner : Level) (terminators : List Kind) (f : Frame) : Frame :=
  let block := (f.parser.start .block).loop (bodyStep inner f.kind terminators)
  if block.children.isEmpty then { f with parser := block.parser }
  else f.child (some .body) fun _ => block.finish

end JassSyntax.Statement
