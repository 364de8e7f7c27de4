import JassSyntax.Token.Basic
import JassSyntax.Tree.Kind

/-!
# Syntax trees

A tree keeps every token of its source, comments included, and marks with a placeholder each token
that the grammar wanted and did not find. Every tree knows the role it plays in its parent, so the
children of a node are a plain list, and which roles a node has filled is read off its children.
-/

namespace JassSyntax

/-- A syntax tree: a token, a placeholder of no width for a token that was not found, or a node. -/
inductive Tree where
  | token (role : Option Role) (token : Token)
  | missing (role : Option Role) (kind : Kind) (position : Position)
  | node (role : Option Role) (kind : NodeKind) (span : Span) (children : List Tree)
  deriving Repr, Inhabited

namespace Tree

/-! ## Parts -/

def role : Tree → Option Role
  | token r _ | missing r _ _ | node r _ _ _ => r

/-- The same tree in another role. -/
def withRole (role : Option Role) : Tree → Tree
  | token _ t => token role t
  | missing _ k p => missing role k p
  | node _ k s cs => node role k s cs

def span : Tree → Span
  | token _ t => t.span
  | missing _ _ p => Span.empty p
  | node _ _ s _ => s

def children : Tree → List Tree
  | node _ _ _ cs => cs
  | _ => []

def nodeKind? : Tree → Option NodeKind
  | node _ k _ _ => some k
  | _ => none

def token? : Tree → Option Token
  | token _ t => some t
  | _ => none

def isNode (t : Tree) : Bool := t.nodeKind?.isSome

def isMissing : Tree → Bool
  | missing .. => true
  | _ => false

/-- The source text under the tree. -/
def text (t : Tree) (source : String) : String := t.span.text source

@[simp] theorem role_withRole (r : Option Role) (t : Tree) : (t.withRole r).role = r := by
  cases t <;> rfl

@[simp] theorem span_withRole (r : Option Role) (t : Tree) : (t.withRole r).span = t.span := by
  cases t <;> rfl

/-! ## Sizes -/

mutual

/-- How many tokens, placeholders and nodes the tree has. -/
def size : Tree → Nat
  | token .. | missing .. => 1
  | node _ _ _ cs => 1 + sizeAll cs

/-- The size of all of several trees. -/
def sizeAll : List Tree → Nat
  | [] => 0
  | t :: ts => size t + sizeAll ts

end

theorem sizeAll_append (ts us : List Tree) : sizeAll (ts ++ us) = sizeAll ts + sizeAll us := by
  induction ts with
  | nil => simp [sizeAll]
  | cons t ts ih => simp [sizeAll, ih, Nat.add_assoc]

/-! ## Marks of error -/

mutual

/-- Whether the tree holds an error node, a placeholder or an unrecognized character. -/
def hasErrors : Tree → Bool
  | token _ t => t.kind == .error
  | missing .. => true
  | node _ k _ cs => k == .error || anyHasErrors cs

/-- Whether one of the trees has errors. -/
def anyHasErrors : List Tree → Bool
  | [] => false
  | t :: ts => hasErrors t || anyHasErrors ts

end

theorem anyHasErrors_eq_any (ts : List Tree) : anyHasErrors ts = ts.any hasErrors := by
  induction ts with
  | nil => rfl
  | cons t ts ih => simp [anyHasErrors, ih]

end Tree

end JassSyntax
