import JassSyntax.Text.Quoted
import JassSyntax.Tree.Sexp

/-!
# Tree dumps

One line for every token, placeholder and node, in document order, indented by depth: role, name,
place counted from one, and the source text. Line feeds of the text are written `\n`, so that an
element never takes a second line.
-/

namespace JassSyntax.Tree

mutual

/-- The tree and all trees below it, each with its depth and before those below it. -/
def leveled (depth : Nat) : Tree → List (Nat × Tree)
  | token r t => [(depth, token r t)]
  | missing r k p => [(depth, missing r k p)]
  | node r k s cs => (depth, node r k s cs) :: leveledAll (depth + 1) cs

/-- The trees and all trees below them. -/
def leveledAll (depth : Nat) : List Tree → List (Nat × Tree)
  | [] => []
  | t :: ts => leveled depth t ++ leveledAll depth ts

end

/-- What a dump calls the tree: a token without a name of its own goes by its quoted text. -/
def dumpName : Tree → String
  | token _ t => t.kind.leafName?.getD (Text.quoted t.text)
  | missing _ k _ => "MISSING " ++ k.describe
  | node _ k _ _ => k.name

/-- A text without line feeds. -/
def onOneLine (s : String) : String :=
  String.ofList (s.toList.flatMap fun c => if c = '\n' then ['\\', 'n'] else [c])

/-- One line of a dump. -/
def dumpLine (source : String) (depth : Nat) (t : Tree) : String :=
  let indent := String.ofList (List.replicate (2 * depth) ' ')
  let label := match t.role with
    | some r => r.label ++ ": "
    | none => ""
  let start := t.span.start
  s!"{indent}{label}{t.dumpName} (line {start.line + 1}, column {start.column + 1}): "
    ++ onOneLine (t.text source) ++ "\n"

/-- The dump of a tree, whose own role is not shown. -/
def dump (t : Tree) (source : String) : String :=
  String.join ((leveled 0 (t.withRole none)).map fun (depth, t) => dumpLine source depth t)

end JassSyntax.Tree
