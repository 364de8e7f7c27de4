import JassSyntax.Tree.Basic

/-!
# Finding things in a tree

Children by their role, the first token of a tree, and all nodes in document order. `descendants`
walks with an explicit list of what is still to be visited, so deep trees cost no stack.
-/

namespace JassSyntax.Tree

/-! ## Children and their roles -/

/-- The children that are nodes. -/
def childNodes (t : Tree) : List Tree := t.children.filter isNode

/-- The roles that the children play, each with the index of the child. -/
def roleTable (t : Tree) : List (Role × Nat) :=
  t.children.zipIdx.filterMap fun (child, i) => child.role.map (·, i)

/-- The role of the child at an index. -/
def roleAt (t : Tree) (i : Nat) : Option Role := t.children[i]? >>= role

/-- Every child in a role, in source order. -/
def inRole (t : Tree) (r : Role) : List Tree := t.children.filter fun c => c.role == some r

/-- The first child in a role. -/
def first? (t : Tree) (r : Role) : Option Tree := (t.inRole r).head?

/-- The first child in a role, if it is a node. -/
def node? (t : Tree) (r : Role) : Option Tree := (t.first? r).filter isNode

/-- The first child in a role, if it is a token. -/
def tokenIn? (t : Tree) (r : Role) : Option Token := t.first? r >>= token?

/-- The closing keyword of a construct that has one, or the placeholder that stands for it. -/
def closer? (t : Tree) : Option Tree :=
  t.nodeKind? >>= NodeKind.closer >>= fun _ => t.first? .closing

/-! ## Tokens -/

mutual

/-- The first token that is no comment, of a tree that is a child. Comments have none. -/
def leadingToken? : Tree → Option Token
  | token _ t => if t.isTrivia then none else some t
  | missing .. => none
  | node _ k _ cs => if k = .blockComment then none else leadingTokenOf? cs

/-- The first token of the trees, in order, that is no comment. -/
def leadingTokenOf? : List Tree → Option Token
  | [] => none
  | t :: ts => leadingToken? t <|> leadingTokenOf? ts

end

/-- The first token below the node that is no comment. -/
def firstToken? (t : Tree) : Option Token := leadingTokenOf? t.children

/-! ## Nodes -/

/-- Adds to `seen` the nodes of the `pending` trees and all nodes below them. -/
def walk (seen : Array Tree) (pending : List Tree) : Array Tree :=
  match pending with
  | [] => seen
  | t :: rest =>
    walk (if t.isNode then seen.push t else seen) (t.children ++ rest)
  termination_by sizeAll pending
  decreasing_by
    cases t <;> simp [sizeAll_append, sizeAll, children, size]

/-- The nodes of the tree, itself included, each before those below it. -/
def descendants (t : Tree) : List Tree := (walk #[] [t]).toList

/-- The nodes of one kind in document order. -/
def findAll (t : Tree) (k : NodeKind) : List Tree :=
  t.descendants.filter fun n => n.nodeKind? == some k

end JassSyntax.Tree
