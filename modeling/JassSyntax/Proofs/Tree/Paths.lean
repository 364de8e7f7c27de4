import JassSyntax.Proofs.Tree.Elements
import JassSyntax.Proofs.Tree.Leaves

/-!
# Ways through a tree

A way leads from a tree down to one of its elements, child by child. Every step of it tells through
what kind of node it goes and which children stand on either side, so a way is one place in a tree,
and it tells what comes before and after that place.
-/

namespace JassSyntax.Tree

/-- A step from a node of a kind down to one of its children. -/
structure Step where
  kind : NodeKind
  left : List Tree
  child : Tree
  right : List Tree

/-- The way leads from the one tree to the other. -/
inductive Path : Tree → List Step → Tree → Prop
  | here (t : Tree) : Path t [] t
  | down {role : Option Role} {kind : NodeKind} {span : Span} {left right : List Tree}
      {child u : Tree} {way : List Step} (rest : Path child way u) :
      Path (node role kind span (left ++ child :: right)) (⟨kind, left, child, right⟩ :: way) u

/-- The tokens in front of the place that a way leads to. -/
def before (way : List Step) : List Token := way.flatMap fun s => leavesAll s.left

/-- The tokens behind the place that a way leads to. -/
def after : List Step → List Token
  | [] => []
  | s :: way => after way ++ leavesAll s.right

@[simp] theorem before_nil : before [] = [] := rfl

@[simp] theorem before_cons (s : Step) (way : List Step) :
    before (s :: way) = leavesAll s.left ++ before way := rfl

variable {t u : Tree} {way : List Step}

theorem after_append (way rest : List Step) : after (way ++ rest) = after rest ++ after way := by
  induction way with
  | nil => simp [after]
  | cons s way ih => simp [after, ih]

theorem Path.trans {v : Tree} {rest : List Step} (first : Path t way u) (second : Path u rest v) :
    Path t (way ++ rest) v := by
  induction first with
  | here t => exact second
  | down _ ih => exact .down (ih second)

theorem Path.of_children {kind : NodeKind} {left right : List Tree}
    (node : t.nodeKind? = some kind) (children : t.children = left ++ u :: right) :
    Path t [⟨kind, left, u, right⟩] u := by
  cases t with
  | token | missing => cases node
  | node role k span cs =>
      cases node
      cases children
      exact .down (.here u)

/-- A tree is read as what is in front of a place, what is there, and what is behind it. -/
theorem Path.leaves (path : Path t way u) : t.leaves = before way ++ (u.leaves ++ after way) := by
  induction path with
  | here t => simp [after]
  | down rest ih => simp [Tree.leaves, ih, after]

/-- The elements of a tree are what ways lead to. -/
theorem mem_elements_iff_path : u ∈ t.elements ↔ ∃ way, Path t way u := by
  constructor
  · induction t using children_induction with
    | step t ih =>
        intro mem
        rcases mem_elements.mp mem with rfl | ⟨c, child, mem⟩
        · exact ⟨[], .here u⟩
        obtain ⟨way, path⟩ := ih c child mem
        cases t with
        | token | missing => cases child
        | node role kind span cs =>
            obtain ⟨left, right, rfl⟩ := List.append_of_mem child
            exact ⟨_, .down path⟩
  · rintro ⟨way, path⟩
    induction path with
    | here t => exact self_mem_elements t
    | @down role kind span left right child u way rest ih =>
        have mem : child ∈ left ++ child :: right := by simp
        exact mem_elements_below mem ih

/-- What leads to something that is no comment is none. -/
theorem Path.isComment_eq_false (path : Path t way u) (remarked : t.Remarked)
    (plain : ¬u.Comment) : t.isComment = false := by
  refine Bool.eq_false_iff.mpr fun comment => plain ?_
  have whole := remarked t (self_mem_elements t) comment
  exact whole.elements u (mem_elements_iff_path.mpr ⟨way, path⟩)

/-! ## Following numbers -/

/-- The way to the child of a number, to its child of the next number and so on, and where it
leads. -/
def follow : Tree → List Nat → Option (List Step × Tree)
  | t, [] => some ([], t)
  | node _ kind _ cs, n :: ns =>
    match cs[n]? with
    | some child => (child.follow ns).map fun (way, u) =>
      (⟨kind, cs.take n, child, cs.drop (n + 1)⟩ :: way, u)
    | none => none
  | _, _ => none

theorem path_of_follow {ns : List Nat} (found : t.follow ns = some (way, u)) : Path t way u := by
  fun_induction follow t ns generalizing way with
  | case1 t =>
      cases found
      exact .here _
  | case2 role kind span cs n ns child number ih =>
      obtain ⟨⟨rest, v⟩, further, same⟩ := Option.map_eq_some_iff.mp found
      cases same
      obtain ⟨inside, rfl⟩ := List.getElem?_eq_some_iff.mp number
      have path : Path (node role kind span (cs.take n ++ cs[n] :: cs.drop (n + 1)))
          (⟨kind, cs.take n, cs[n], cs.drop (n + 1)⟩ :: rest) u := .down (ih further)
      rwa [← List.drop_eq_getElem_cons inside, List.take_append_drop] at path
  | case3 => cases found
  | case4 => cases found

/-! ## Places of tokens -/

/-- A token of several trees is a token of one of them. -/
theorem leavesAll_split {ts : List Tree} {front back : List Token} {x : Token}
    (leaves : leavesAll ts = front ++ x :: back) :
    ∃ left c right front' back', ts = left ++ c :: right ∧ front = leavesAll left ++ front' ∧
      c.leaves = front' ++ x :: back' ∧ back = back' ++ leavesAll right := by
  induction ts generalizing front with
  | nil => simp at leaves
  | cons t ts ih =>
      rw [leavesAll_cons] at leaves
      rcases List.append_eq_append_iff.mp leaves with ⟨more, rfl, rest⟩ | ⟨more, here, rest⟩
      -- The token comes behind the first tree.
      · obtain ⟨left, c, right, front', back', rfl, rfl, inside, rfl⟩ := ih rest
        exact ⟨t :: left, c, right, front', back', rfl, by simp, inside, rfl⟩
      · cases more with
        | nil =>
            have start : leavesAll ts = [] ++ x :: back := rest.symm
            obtain ⟨left, c, right, front', back', rfl, none, inside, rfl⟩ := ih start
            refine ⟨t :: left, c, right, front', back', rfl, ?_, inside, rfl⟩
            rw [leavesAll_cons, List.append_assoc, ← none, here, List.append_nil, List.append_nil]
        | cons y more =>
            cases rest
            exact ⟨[], t, ts, front, more, rfl, rfl, here, rfl⟩

/-- Every token below a node is a child of one node at one place. -/
theorem exists_path_of_leaves {front back : List Token} {x : Token}
    (leaves : t.leaves = front ++ x :: back) (inside : t.isNode = true) :
    ∃ way u left role right, Path t way u ∧ u.children = left ++ .token role x :: right ∧
      front = before way ++ leavesAll left ∧ back = leavesAll right ++ after way := by
  induction t using children_induction generalizing front back with
  | step t ih =>
      cases t with
      | token | missing => cases inside
      | node role kind span cs =>
          obtain ⟨left, c, right, front', back', rfl, rfl, below, rfl⟩ := leavesAll_split leaves
          cases c with
          | missing => simp [Tree.leaves] at below
          | token role y =>
              have single : [y] = front' ++ x :: back' := below
              cases front' with
              | cons z zs => simp at single
              | nil =>
                  cases single
                  exact ⟨[], _, left, role, right, .here _, rfl, by simp, by simp [after]⟩
          | node role' kind' span' cs' =>
              obtain ⟨way, u, l, r, m, path, children, rfl, rfl⟩ :=
                ih _ (by simp [children]) below rfl
              exact ⟨_, u, l, r, m, .down path, children, by simp, by simp [after]⟩

end JassSyntax.Tree
