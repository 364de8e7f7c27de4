import JassSyntax.Proofs.Tree.Elements
import JassSyntax.Tree.Walk

/-!
# All nodes of a tree

The walk over a tree meets its elements in document order, and keeps those that are nodes.
-/

namespace JassSyntax.Tree

theorem toList_walk (seen : Array Tree) (pending : List Tree) :
    (walk seen pending).toList = seen.toList ++ (elementsAll pending).filter isNode := by
  fun_induction walk seen pending with
  | case1 seen => exact (List.append_nil _).symm
  | case2 seen t rest ih =>
      rw [dite_eq_ite] at ih
      rw [ih, elementsAll_eq_flatMap, List.flatMap_append, ← elementsAll_eq_flatMap,
        ← elementsAll_eq_flatMap, elementsAll, elements_eq t, List.cons_append, List.filter_cons]
      split
      · rw [Array.toList_push, List.append_assoc, List.singleton_append]
      · rfl

theorem descendants_eq (t : Tree) : t.descendants = t.elements.filter isNode := by
  rw [descendants, toList_walk, elementsAll, elementsAll, List.append_nil]
  rfl

theorem mem_descendants {e t : Tree} : e ∈ t.descendants ↔ e ∈ t.elements ∧ e.isNode = true := by
  rw [descendants_eq, List.mem_filter]

theorem mem_children_of_first? {c t : Tree} {role : Role} (first : t.first? role = some c) :
    c ∈ t.children :=
  (List.mem_filter.mp (List.mem_of_head? first)).1

theorem role_of_first? {c t : Tree} {role : Role} (first : t.first? role = some c) :
    c.role = some role := by
  simpa using (List.mem_filter.mp (List.mem_of_head? first)).2

end JassSyntax.Tree
