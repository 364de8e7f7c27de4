import JassSyntax.Tree.Basic

/-!
# S-expressions

The named structure of a tree in one line: nodes, placeholders, the closing keywords of constructs,
and the tokens whose text varies. Keywords and punctuation are left out.
-/

namespace JassSyntax

/-- The name of a token that the tree's outline shows. -/
def Kind.leafName? : Kind → Option String
  | .identifier => some "identifier"
  | .number => some "number"
  | .float => some "float"
  | .stringContent => some "string_content"
  | .blockCommentContent => some "comment_content"
  | .lineComment => some "line_comment"
  | .error => some "ERROR"
  | _ => none

namespace Tree

/-- What a token is called as a child of a node. A construct's closing keyword goes by its alias. -/
def leafName? (parent : NodeKind) (role : Option Role) (kind : Kind) : Option String :=
  match role, parent.closerAlias with
  | some .closing, some closerAlias => some closerAlias
  | _, _ => kind.leafName?

/-- A child as a parent shows it: after a space, and after its role if it has one. -/
def sexpItem (role : Option Role) (body : String) : String :=
  match role with
  | some r => " " ++ r.label ++ ": " ++ body
  | none => " " ++ body

mutual

/-- The tree as a child of a `parent`, or nothing for a token without a name. -/
def sexpChild (parent : NodeKind) : Tree → String
  | token r t =>
    match leafName? parent r t.kind with
    | some name => sexpItem r ("(" ++ name ++ ")")
    | none => ""
  | missing r k _ => sexpItem r ("(MISSING " ++ k.describe ++ ")")
  | node r k _ cs => sexpItem r ("(" ++ k.name ++ sexpChildren k cs ++ ")")

/-- The children of a `parent`, one after the other. -/
def sexpChildren (parent : NodeKind) : List Tree → String
  | [] => ""
  | t :: ts => sexpChild parent t ++ sexpChildren parent ts

end

/-- The S-expression of a node. -/
def sexp : Tree → String
  | node _ k _ cs => "(" ++ k.name ++ sexpChildren k cs ++ ")"
  | _ => ""

end Tree

end JassSyntax
