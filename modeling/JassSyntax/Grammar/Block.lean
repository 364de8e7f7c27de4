import JassSyntax.Grammar.Level
import JassSyntax.Tree.Walk

/-!
# Blocks

What all constructs with a body share: closing keywords, whom to blame when one is missing, and
parameter lists.
-/

namespace JassSyntax

namespace Tree

mutual

/-- The body that a child ends with: its own if the child is a body, and that of a clause. -/
def trailingBody? : Tree → Option Tree
  | node r .block s cs => some (node r .block s cs)
  | node _ .elseifClause _ cs | node _ .elseClause _ cs => trailingBodyOf? cs
  | _ => none

/-- The body that the last child with one ends with. -/
def trailingBodyOf? : List Tree → Option Tree
  | [] => none
  | t :: ts => trailingBodyOf? ts <|> trailingBody? t

end

/-- Whether the tree is a construct with the given closer, and closed. -/
def isClosedBy (t : Tree) (closer : Kind) : Bool :=
  (t.nodeKind? >>= NodeKind.closer) == some closer && t.closer?.any (!·.isMissing)

/-- The last statement of a body, comments aside. -/
def lastStatement? (body : Tree) : Option Tree :=
  (body.childNodes.filter fun t => t.nodeKind? != some .blockComment).getLast?

end Tree

/-- A construct suspected of lacking its closer: where it opens, and the body that it ends with. -/
structure Suspect where
  opener : Span
  body : Option Tree

namespace Suspect

/-- Moves the suspicion to the last statement of the body, if that is closed by the same closer. -/
def inward (closer : Kind) (s : Suspect) : Suspect × Bool :=
  match s.body >>= Tree.lastStatement? with
  | some last =>
    if last.isClosedBy closer then
      (⟨(last.firstToken?.map Token.span).getD s.opener, Tree.trailingBodyOf? last.children⟩, true)
    else (s, false)
  | none => (s, false)

end Suspect

/-- Where the construct opens that is to blame when a construct with the children so far meets the
end of input. Closers pair innermost first, so when the body ends in a closed construct with the
same closer, that closer may have been meant for the outer one, and the innermost construct of such
a chain is the one left open. -/
def blamed (opener : Span) (children : List Tree) (closer : Kind) : Span :=
  (Loop.run (fun s => (s.body.map Tree.size).getD 0) (Suspect.inward closer)
    ⟨opener, Tree.trailingBodyOf? children⟩).opener

namespace Frame

/-- Takes the closer of the construct, or complains and puts a placeholder in, so that the
constructs around it still close. -/
def close (f : Frame) : Frame :=
  match f.kind.closer with
  | none => f
  | some closer =>
    if f.current = closer then f.bump (some .closing)
    else
      let anchor :=
        if f.current = .eof then blamed f.opener f.children.toList closer else f.opener
      let parser := f.parser.complainAt anchor (.unclosed f.kind closer)
      { f with parser }.insertMissing (some .closing) closer

/-- Runs `read` while enclosing bodies end at `closers` too. -/
def within (f : Frame) (closers : List Kind) (read : Frame → Frame) : Frame :=
  let mark := f.parser.openClosers.length
  let f := read { f with parser := f.parser.enterBlock closers }
  { f with parser := f.parser.leaveBlock mark }

/-- The statements of the construct and its closer. -/
def closedBody (inner : Level) (f : Frame) : Frame :=
  let closers := f.kind.closer.toList
  (f.within closers (inner.body closers)).close

/-- One parameter, with its type if there is one. -/
def parameter (p : Parser) : Tree × Parser :=
  let (next, f) := (p.start .parameter).second
  let f := if next = .identifier then f.bump (some .type) else f
  (f.bump (some .name)).finish

/-- Parameters with commas between them, as far as they go. -/
def parameterItems (f : Frame) : Frame :=
  f.loop fun f =>
    if f.current = .identifier then (f.child none parameter).eat .comma else (f, false)

/-- The parameter list of a function, in parentheses. Without the first of them it is empty. -/
def parameters (f : Frame) : Frame :=
  f.child (some .parameters) fun p =>
    let (g, opened) := (p.start .parameters).demand .lParen none (.unexpected .lParen)
    if opened then (g.parameterItems.expect .rParen).finish else g.finish

end Frame

end JassSyntax
