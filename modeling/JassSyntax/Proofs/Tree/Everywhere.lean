import JassSyntax.Proofs.Tree.Comments

/-!
# Properties of all trees in a tree, comments aside
-/

namespace JassSyntax.Tree

/-- The tree and all trees below it have the property, comments aside. -/
inductive Everywhere (P : Tree → Prop) : Tree → Prop
  | intro {t : Tree} (here : P t) (below : ∀ c ∈ t.parts, Everywhere P c) : Everywhere P t

namespace Everywhere

variable {P Q : Tree → Prop} {t : Tree}

theorem here (h : t.Everywhere P) : P t := by
  cases h with
  | intro here _ => exact here

theorem of_part (h : t.Everywhere P) : ∀ c ∈ t.parts, c.Everywhere P := by
  cases h with
  | intro _ below => exact below

theorem imp (h : t.Everywhere P) (sub : ∀ u, P u → Q u) : t.Everywhere Q := by
  induction h with
  | intro here _ ih => exact .intro (sub _ here) ih

/-- What a property of every tree says of its parts holds of every tree but the outermost. -/
theorem of_parents (h : t.Everywhere P) (outermost : Q t)
    (step : ∀ u, P u → ∀ c ∈ u.parts, Q c) : t.Everywhere Q := by
  induction h with
  | @intro t here _ ih => exact .intro outermost fun c part => ih c part (step t here c part)

end Everywhere

@[simp] theorem nodeKind?_withRole (r : Option Role) (t : Tree) :
    (t.withRole r).nodeKind? = t.nodeKind? := by
  cases t <;> rfl

@[simp] theorem isMissing_withRole (r : Option Role) (t : Tree) :
    (t.withRole r).isMissing = t.isMissing := by
  cases t <;> rfl

@[simp] theorem token?_withRole (r : Option Role) (t : Tree) :
    (t.withRole r).token? = t.token? := by
  cases t <;> rfl

end JassSyntax.Tree
