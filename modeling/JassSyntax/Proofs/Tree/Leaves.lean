import JassSyntax.Grammar.Item

/-!
# The leaves of a tree

The tokens of a tree from left to right. Placeholders are no tokens.
-/

namespace JassSyntax

namespace Tree

mutual

/-- The tokens of the tree from left to right. -/
def leaves : Tree → List Token
  | token _ t => [t]
  | missing .. => []
  | node _ _ _ cs => leavesAll cs

/-- The tokens of the trees, one tree after the other. -/
def leavesAll : List Tree → List Token
  | [] => []
  | t :: ts => leaves t ++ leavesAll ts

end

@[simp] theorem leavesAll_nil : leavesAll [] = [] := rfl

@[simp] theorem leavesAll_cons (t : Tree) (ts : List Tree) :
    leavesAll (t :: ts) = t.leaves ++ leavesAll ts := rfl

@[simp] theorem leavesAll_append (ts us : List Tree) :
    leavesAll (ts ++ us) = leavesAll ts ++ leavesAll us := by
  induction ts with
  | nil => rfl
  | cons t ts ih => simp [ih]

@[simp] theorem leaves_withRole (r : Option Role) (t : Tree) :
    (t.withRole r).leaves = t.leaves := by
  cases t <;> simp [withRole, leaves]

@[simp] theorem leaves_ofChildren (k : NodeKind) (p : Position) (ts : List Tree) :
    (ofChildren k p ts).leaves = leavesAll ts := by
  simp [ofChildren, leaves]

theorem mem_leavesAll {x : Token} {ts : List Tree} :
    x ∈ leavesAll ts ↔ ∃ t ∈ ts, x ∈ t.leaves := by
  induction ts with
  | nil => simp
  | cons t ts ih => simp [ih]

end Tree

/-- The tokens of an item in source order. -/
def Item.leaves (item : Item) : List Token := Tree.leavesAll item.comments ++ [item.token]

end JassSyntax
