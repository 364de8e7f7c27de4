import JassSyntax.Tree.Walk

/-!
# Outlines

What a source text defines, in the order of definition: functions, structs, blocks of globals and
the variables of every declaration.
-/

namespace JassSyntax

/-- What can be defined. -/
inductive DefinitionKind where
  | function
  | struct
  | globals
  | variable
  deriving DecidableEq, Repr

namespace DefinitionKind

def label : DefinitionKind → String
  | .function => "function"
  | .struct => "struct"
  | .globals => "globals"
  | .variable => "variable"

end DefinitionKind

/-- A definition: its name and where the name stands, line and column counted from one. -/
structure Definition where
  kind : DefinitionKind
  name : String
  line : Nat
  column : Nat
  deriving DecidableEq, Repr

namespace Definition

/-- The definition of a name that stands at a position. -/
def located (kind : DefinitionKind) (name : String) (p : Position) : Definition :=
  ⟨kind, name, p.line + 1, p.column + 1⟩

/-- The definition of the name that a token is. -/
def ofToken (kind : DefinitionKind) (t : Token) : Definition := .located kind t.text t.span.start

end Definition

namespace Tree

/-- The names that a declaration declares. -/
def declaredTokens (declaration : Tree) : List Token :=
  ((declaration.inRole .declarator).filter isNode).filterMap fun d => d.tokenIn? .name

/-- What a node defines by itself. -/
def definitions (source : String) (t : Tree) : List Definition :=
  match t.nodeKind? with
  | some .functionDefinition =>
    match t.first? .name with
    | some name =>
      if name.isMissing then [] else [.located .function (name.text source) name.span.start]
    | none => []
  | some .structDefinition => (t.tokenIn? .name).toList.map (.ofToken .struct)
  | some .globalsBlock => [.located .globals "globals" t.span.start]
  | some .variableDeclaration => t.declaredTokens.map (.ofToken .variable)
  | _ => []

/-- What the tree, whose text is `source`, defines, in the order of its nodes. -/
def outline (t : Tree) (source : String) : List Definition :=
  t.descendants.flatMap (definitions source)

end Tree

end JassSyntax
