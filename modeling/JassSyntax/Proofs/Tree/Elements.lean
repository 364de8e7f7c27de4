import JassSyntax.Proofs.Tree.Everywhere

/-!
# All elements of a tree

The tokens, placeholders and nodes of a tree in document order, with everything that lies in
comments. A tree has errors if one of its elements is a fault, and the marks of repairs are counted
among the elements.
-/

namespace JassSyntax.Tree

mutual

/-- The tree and everything below it, each before what lies below it. -/
def elements : Tree → List Tree
  | token r t => [token r t]
  | missing r k p => [missing r k p]
  | node r k s cs => node r k s cs :: elementsAll cs

/-- The elements of the trees, one tree after the other. -/
def elementsAll : List Tree → List Tree
  | [] => []
  | t :: ts => elements t ++ elementsAll ts

end

theorem elements_eq (t : Tree) : t.elements = t :: elementsAll t.children := by
  cases t <;> rfl

theorem elementsAll_eq_flatMap (ts : List Tree) : elementsAll ts = ts.flatMap elements := by
  induction ts with
  | nil => rfl
  | cons t ts ih => rw [elementsAll, ih, List.flatMap_cons]

theorem self_mem_elements (t : Tree) : t ∈ t.elements := by
  rw [elements_eq]
  exact List.mem_cons_self

theorem mem_elements {e t : Tree} :
    e ∈ t.elements ↔ e = t ∨ ∃ c ∈ t.children, e ∈ c.elements := by
  rw [elements_eq, List.mem_cons, elementsAll_eq_flatMap, List.mem_flatMap]

theorem mem_elements_below {c e t : Tree} (child : c ∈ t.children) (mem : e ∈ c.elements) :
    e ∈ t.elements :=
  mem_elements.mpr (.inr ⟨c, child, mem⟩)

theorem mem_elements_of_child {c t : Tree} (child : c ∈ t.children) : c ∈ t.elements :=
  mem_elements_below child (self_mem_elements c)

@[simp] theorem children_withRole (r : Option Role) (t : Tree) :
    (t.withRole r).children = t.children := by
  cases t <;> rfl

@[simp] theorem children_ofChildren (k : NodeKind) (p : Position) (ts : List Tree) :
    (ofChildren k p ts).children = ts := rfl

/-! ## Induction over children -/

theorem size_le_sizeAll {c : Tree} {ts : List Tree} (h : c ∈ ts) : c.size ≤ sizeAll ts := by
  obtain ⟨before, after, rfl⟩ := List.append_of_mem h
  rw [sizeAll_append, sizeAll]
  omega

theorem size_lt_of_mem_children {c t : Tree} (h : c ∈ t.children) : c.size < t.size := by
  cases t with
  | token | missing => cases h
  | node r k s cs =>
      have le := size_le_sizeAll h
      rw [size]
      exact Nat.lt_one_add_iff.mpr le

/-- What holds of a tree whenever it holds of its children holds of every tree. -/
theorem children_induction {P : Tree → Prop} (step : ∀ t, (∀ c ∈ t.children, P c) → P t)
    (t : Tree) : P t :=
  step t fun c _ => children_induction step c
  termination_by t.size
  decreasing_by exact size_lt_of_mem_children ‹_›

theorem mem_elements_trans {e u t : Tree} (lower : e ∈ u.elements) (upper : u ∈ t.elements) :
    e ∈ t.elements := by
  induction t using children_induction with
  | step t ih =>
      rcases mem_elements.mp upper with rfl | ⟨c, child, mem⟩
      · exact lower
      · exact mem_elements_below child (ih c child mem)

theorem size_le_of_mem_elements {e t : Tree} (mem : e ∈ t.elements) : e.size ≤ t.size := by
  induction t using children_induction with
  | step t ih =>
      rcases mem_elements.mp mem with rfl | ⟨c, child, mem⟩
      · exact Nat.le_refl _
      · exact Nat.le_of_lt (Nat.lt_of_le_of_lt (ih c child mem) (size_lt_of_mem_children child))

/-! ## Faults -/

/-- An error node, a placeholder or an unrecognized character. -/
def isFault : Tree → Bool
  | token _ t => t.kind == .error
  | missing .. => true
  | node _ k _ _ => k == .error

theorem hasErrors_eq (t : Tree) : t.hasErrors = (t.isFault || t.children.any hasErrors) := by
  cases t with
  | token | missing => simp [hasErrors, isFault, children]
  | node => rw [hasErrors, anyHasErrors_eq_any, isFault, children]

theorem hasErrors_iff (t : Tree) : t.hasErrors = true ↔ ∃ e ∈ t.elements, e.isFault = true := by
  induction t using children_induction with
  | step t ih =>
      rw [hasErrors_eq, Bool.or_eq_true, List.any_eq_true]
      constructor
      · rintro (here | ⟨c, child, below⟩)
        · exact ⟨t, self_mem_elements t, here⟩
        · obtain ⟨e, mem, fault⟩ := (ih c child).mp below
          exact ⟨e, mem_elements_below child mem, fault⟩
      · rintro ⟨e, mem, fault⟩
        rcases mem_elements.mp mem with rfl | ⟨c, child, mem⟩
        · exact .inl fault
        · exact .inr ⟨c, child, (ih c child).mpr ⟨e, mem, fault⟩⟩

/-! ## Marks of repairs -/

/-- How many error nodes the tree has. -/
def errorNodes (t : Tree) : Nat := t.elements.countP fun e => e.nodeKind? == some .error

/-- How many placeholders the tree has. -/
def placeholders (t : Tree) : Nat := t.elements.countP isMissing

/-- How many marks of repairs the tree has. -/
def marks (t : Tree) : Nat := t.errorNodes + t.placeholders

/-- The marks of all of several trees. -/
def marksAll : List Tree → Nat
  | [] => 0
  | t :: ts => t.marks + marksAll ts

@[simp] theorem marksAll_nil : marksAll [] = 0 := rfl

@[simp] theorem marksAll_cons (t : Tree) (ts : List Tree) :
    marksAll (t :: ts) = t.marks + marksAll ts := rfl

@[simp] theorem marksAll_append (ts us : List Tree) :
    marksAll (ts ++ us) = marksAll ts + marksAll us := by
  induction ts with
  | nil => simp
  | cons t ts ih => rw [List.cons_append, marksAll_cons, marksAll_cons, ih, Nat.add_assoc]

theorem marks_eq (t : Tree) : t.marks =
    (if t.nodeKind? = some .error then 1 else 0) + (if t.isMissing then 1 else 0) +
      marksAll t.children := by
  have below : ∀ ts : List Tree, marksAll ts =
      (elementsAll ts).countP (fun e => e.nodeKind? == some .error) +
        (elementsAll ts).countP isMissing := by
    intro ts
    induction ts with
    | nil => rfl
    | cons t ts ih =>
        rw [marksAll_cons, ih, elementsAll, List.countP_append, List.countP_append, marks,
          errorNodes, placeholders]
        omega
  rw [below, marks, errorNodes, placeholders, elements_eq, List.countP_cons, List.countP_cons]
  simp only [beq_iff_eq]
  omega

@[simp] theorem marks_token (r : Option Role) (t : Token) : (token r t).marks = 0 := rfl

@[simp] theorem marks_missing (r : Option Role) (k : Kind) (p : Position) :
    (missing r k p).marks = 1 := rfl

@[simp] theorem marks_withRole (r : Option Role) (t : Tree) : (t.withRole r).marks = t.marks := by
  rw [marks_eq, marks_eq t, nodeKind?_withRole, isMissing_withRole, children_withRole]

theorem marks_ofChildren (k : NodeKind) (p : Position) (ts : List Tree) :
    (ofChildren k p ts).marks = (if k = .error then 1 else 0) + marksAll ts := by
  rw [marks_eq, children_ofChildren]
  simp [ofChildren, nodeKind?, isMissing]

/-- A tree without errors has no marks. -/
theorem marks_of_hasErrors {t : Tree} (h : t.hasErrors = false) : t.marks = 0 := by
  have fine : ∀ e ∈ t.elements, e.isFault = false := by
    intro e mem
    rw [Bool.eq_false_iff]
    intro fault
    rw [(hasErrors_iff t).mpr ⟨e, mem, fault⟩] at h
    cases h
  have nodes : t.errorNodes = 0 := by
    refine List.countP_eq_zero.mpr fun e mem error => ?_
    have plain := fine e mem
    cases e <;> simp_all [nodeKind?, isFault]
  have gaps : t.placeholders = 0 := by
    refine List.countP_eq_zero.mpr fun e mem absent => ?_
    have plain := fine e mem
    cases e <;> simp_all [isMissing, isFault]
  rw [marks, nodes, gaps]

/-! ## Comments -/

/-- What lies in a comment is a comment. -/
theorem Comment.elements {t : Tree} (h : t.Comment) : ∀ e ∈ t.elements, e.Comment := by
  intro e mem
  rcases mem_elements.mp mem with rfl | ⟨c, child, mem⟩
  · exact h
  have leaf : ∃ role part, c = .token role part ∧ part.isTrivia = true := by
    cases h with
    | token => cases child
    | block first parts =>
        rcases List.mem_cons.mp child with rfl | child
        · exact ⟨_, _, rfl, first⟩
        · exact parts c child
  obtain ⟨role, part, rfl, trivia⟩ := leaf
  rw [List.mem_singleton.mp mem]
  exact .token trivia

/-- Comments are no faults. -/
theorem Comment.isFault {t : Tree} (h : t.Comment) : t.isFault = false := by
  cases h with
  | @token _ part trivia =>
      rw [Tree.isFault, beq_eq_false_iff_ne]
      intro error
      rw [Token.isTrivia, error] at trivia
      cases trivia
  | block => rfl

theorem Comment.marks {t : Tree} (h : t.Comment) : t.marks = 0 := by
  refine marks_of_hasErrors (Bool.eq_false_iff.mpr fun errors => ?_)
  obtain ⟨e, mem, fault⟩ := (hasErrors_iff t).mp errors
  rw [(h.elements e mem).isFault] at fault
  cases fault

theorem marksAll_of_comments {ts : List Tree} (h : ∀ t ∈ ts, t.Comment) : marksAll ts = 0 := by
  induction ts with
  | nil => rfl
  | cons t ts ih =>
      rw [marksAll_cons, (h t List.mem_cons_self).marks,
        ih fun u mem => h u (List.mem_cons_of_mem t mem)]

/-- Every comment in the tree is one of a stream of items. -/
def Remarked (t : Tree) : Prop := ∀ e ∈ t.elements, e.isComment = true → e.Comment

theorem remarked_of_children {t : Tree} (here : t.isComment = true → t.Comment)
    (below : ∀ c ∈ t.children, c.Remarked) : t.Remarked := by
  intro e mem comment
  rcases mem_elements.mp mem with rfl | ⟨c, child, mem⟩
  · exact here comment
  · exact below c child e mem comment

theorem Remarked.of_element {e t : Tree} (h : t.Remarked) (mem : e ∈ t.elements) : e.Remarked :=
  fun _ below => h _ (mem_elements_trans below mem)

theorem Remarked.of_child {c t : Tree} (h : t.Remarked) (child : c ∈ t.children) : c.Remarked :=
  h.of_element (mem_elements_of_child child)

theorem Comment.remarked {t : Tree} (h : t.Comment) : t.Remarked :=
  fun e mem _ => h.elements e mem

/-- What holds everywhere, comments aside, holds of all elements but comments. -/
theorem Everywhere.elements {P : Tree → Prop} {t : Tree} (h : t.Everywhere P)
    (remarked : t.Remarked) : ∀ e ∈ t.elements, P e ∨ e.Comment := by
  induction h with
  | @intro t here _ ih =>
      intro e mem
      rcases mem_elements.mp mem with rfl | ⟨c, child, mem⟩
      · exact .inl here
      cases comment : c.isComment with
      | true =>
          have whole := remarked c (mem_elements_of_child child) comment
          exact .inr (whole.elements e mem)
      | false =>
          have part : c ∈ t.parts := List.mem_filter.mpr ⟨child, by simp [comment]⟩
          exact ih c part (remarked.of_child child) e mem

end JassSyntax.Tree
