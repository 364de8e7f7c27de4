import JassSyntax.Grammar.Block
import JassSyntax.Proofs.Tree.Elements

/-!
# Views of trees

A view is what of a tree is looked at. It may pass over comments, and it may look away from places;
where a node lies it never looks. Trees that look the same are asked the same questions with the
same answers: which token comes first, which closer is there, and whom to blame for one that is not.
-/

namespace JassSyntax

/-- What of a tree is looked at. -/
structure View where
  /-- Whether comments are seen. -/
  comments : Bool
  /-- What is seen of a place. -/
  place : Position → Position

namespace View

open JassSyntax.Tree

variable (v : View)

def span (s : Span) : Span := ⟨v.place s.start, v.place s.stop⟩

def token (t : Token) : Token := { t with span := v.span t.span }

/-- Whether the tree is not seen among the children of a node. A comment has no role there. -/
def passesOver (t : Tree) : Bool := !v.comments && t.isComment && t.role.isNone

mutual

/-- The tree as it is seen. -/
def tree : Tree → Tree
  | .token r t => .token r (v.token t)
  | .missing r k p => .missing r k (v.place p)
  | .node r k _ cs => .node r k default (trees cs)

/-- The trees that are seen, as they are. -/
def trees : List Tree → List Tree
  | [] => []
  | t :: ts => if v.passesOver t then trees ts else tree t :: trees ts

end

@[simp] theorem trees_nil : v.trees [] = [] := by rw [trees]

theorem trees_cons (t : Tree) (ts : List Tree) :
    v.trees (t :: ts) = if v.passesOver t then v.trees ts else v.tree t :: v.trees ts := by
  rw [trees]

@[simp] theorem trees_append (ts us : List Tree) :
    v.trees (ts ++ us) = v.trees ts ++ v.trees us := by
  induction ts with
  | nil => simp
  | cons t ts ih =>
      rw [List.cons_append, trees_cons, trees_cons, ih]
      split
      · rfl
      · rfl

theorem trees_eq_nil {ts : List Tree} (h : ∀ t ∈ ts, v.passesOver t = true) : v.trees ts = [] := by
  induction ts with
  | nil => simp
  | cons t ts ih =>
      rw [trees_cons, if_pos (h t List.mem_cons_self)]
      exact ih fun u mem => h u (List.mem_cons_of_mem t mem)

/-! ## Single trees -/

@[simp] theorem role_tree (t : Tree) : (v.tree t).role = t.role := by
  cases t <;> simp [tree, role]

@[simp] theorem isComment_tree (t : Tree) : (v.tree t).isComment = t.isComment := by
  cases t <;> simp [tree, isComment, token, Token.isTrivia]

@[simp] theorem nodeKind?_tree (t : Tree) : (v.tree t).nodeKind? = t.nodeKind? := by
  cases t <;> simp [tree, nodeKind?]

@[simp] theorem isMissing_tree (t : Tree) : (v.tree t).isMissing = t.isMissing := by
  cases t <;> simp [tree, isMissing]

@[simp] theorem isNode_tree (t : Tree) : (v.tree t).isNode = t.isNode := by
  simp [isNode]

@[simp] theorem children_tree (t : Tree) : (v.tree t).children = v.trees t.children := by
  cases t <;> simp [tree, children]

@[simp] theorem tree_withRole (r : Option Role) (t : Tree) :
    v.tree (t.withRole r) = (v.tree t).withRole r := by
  cases t <;> simp [tree, withRole]

@[simp] theorem tree_ofChildren (k : NodeKind) (p : Position) (ts : List Tree) :
    v.tree (ofChildren k p ts) = .node none k default (v.trees ts) := by
  rw [ofChildren, tree]

@[simp] theorem passesOver_tree (t : Tree) : v.passesOver (v.tree t) = v.passesOver t := by
  simp [passesOver]

/-- Whether a tree is seen shows in how it looks. -/
theorem trees_singleton (t : Tree) :
    v.trees [t] = if v.passesOver (v.tree t) then [] else [v.tree t] := by
  rw [trees_cons, trees_nil, passesOver_tree]

theorem passesOver_comment {t : Tree} (h : v.passesOver t = true) : t.isComment = true := by
  simp only [passesOver, Bool.and_eq_true] at h
  exact h.1.2

theorem passesOver_role {t : Tree} (h : v.passesOver t = true) : t.role = none := by
  simp only [passesOver, Bool.and_eq_true, Option.isNone_iff_eq_none] at h
  exact h.2

/-- Trees that are chosen by what is seen of them, and not chosen if they are passed over. -/
theorem filter_trees {choice : Tree → Bool} (same : ∀ t, choice (v.tree t) = choice t)
    (plain : ∀ t, v.passesOver t = true → choice t = false) (ts : List Tree) :
    (v.trees ts).filter choice = (ts.filter choice).map v.tree := by
  induction ts with
  | nil => simp
  | cons t ts ih =>
      rw [trees_cons]
      split
      · next passed => rw [List.filter_cons_of_neg (by rw [plain t passed]; decide), ih]
      · by_cases chosen : choice t = true
        · rw [List.filter_cons_of_pos chosen, List.filter_cons_of_pos (by rw [same, chosen]), ih,
            List.map_cons]
        · rw [List.filter_cons_of_neg chosen, List.filter_cons_of_neg (by rwa [same]), ih]

/-! ## Closers and first tokens -/

theorem first?_tree (t : Tree) (r : Role) : (v.tree t).first? r = (t.first? r).map v.tree := by
  rw [first?, inRole, children_tree, filter_trees, List.head?_map]
  · rfl
  · simp
  · intro t passed
    rw [passesOver_role v passed]
    rfl

theorem isClosedBy_tree (t : Tree) (closer : Kind) :
    (v.tree t).isClosedBy closer = t.isClosedBy closer := by
  unfold isClosedBy closer?
  rw [nodeKind?_tree, first?_tree]
  cases t.nodeKind? >>= NodeKind.closer with
  | none => rfl
  | some _ =>
      cases t.first? .closing <;> simp

theorem leadingToken?_of_comment {t : Tree} (h : t.isComment = true) : t.leadingToken? = none := by
  cases t with
  | token r t => exact if_pos h
  | missing r k p => cases h
  | node r k s cs =>
      rw [leadingToken?]
      exact if_pos (by simpa [isComment] using h)

mutual

theorem leadingToken?_tree : ∀ t : Tree, (v.tree t).leadingToken? = t.leadingToken?.map v.token
  | .token r t => by
      rw [tree, leadingToken?, leadingToken?]
      show (if t.isTrivia then none else some (v.token t)) = _
      split <;> rfl
  | .missing r k p => by rw [tree, leadingToken?, leadingToken?]; rfl
  | .node r k s cs => by
      rw [tree, leadingToken?, leadingToken?, leadingTokenOf?_trees cs]
      split <;> rfl

theorem leadingTokenOf?_trees : ∀ ts : List Tree,
    leadingTokenOf? (v.trees ts) = (leadingTokenOf? ts).map v.token
  | [] => by rw [trees_nil, leadingTokenOf?]; rfl
  | t :: ts => by
      have rest := leadingTokenOf?_trees ts
      rw [trees_cons, leadingTokenOf?]
      split
      · next passed =>
        rw [rest, leadingToken?_of_comment (v.passesOver_comment passed)]
        rfl
      · rw [leadingTokenOf?, leadingToken?_tree t, rest]
        cases t.leadingToken? <;> rfl

end

theorem firstToken?_tree (t : Tree) : (v.tree t).firstToken? = t.firstToken?.map v.token := by
  rw [firstToken?, children_tree, leadingTokenOf?_trees, firstToken?]

/-! ## Bodies -/

theorem trailingBody?_of_comment {t : Tree} (h : t.isComment = true) : t.trailingBody? = none := by
  cases t with
  | token | missing => rfl
  | node r k s cs =>
      obtain rfl : k = .blockComment := by simpa [isComment] using h
      rfl

mutual

theorem trailingBody?_tree : ∀ t : Tree, (v.tree t).trailingBody? = t.trailingBody?.map v.tree
  | .token r t => by rw [tree]; rfl
  | .missing r k p => by rw [tree]; rfl
  | .node r k s cs => by
      have inside := trailingBodyOf?_trees cs
      cases k
      case block => rw [tree, trailingBody?, trailingBody?, Option.map_some, tree]
      case elseifClause => rw [tree, trailingBody?, trailingBody?, inside]
      case elseClause => rw [tree, trailingBody?, trailingBody?, inside]
      all_goals rw [tree]; rfl

theorem trailingBodyOf?_trees : ∀ ts : List Tree,
    trailingBodyOf? (v.trees ts) = (trailingBodyOf? ts).map v.tree
  | [] => by rw [trees_nil]; rfl
  | t :: ts => by
      have rest := trailingBodyOf?_trees ts
      rw [trees_cons, trailingBodyOf?]
      split
      · next passed =>
        rw [rest, trailingBody?_of_comment (v.passesOver_comment passed)]
        cases trailingBodyOf? ts <;> rfl
      · rw [trailingBodyOf?, trailingBody?_tree t, rest]
        cases trailingBodyOf? ts <;> rfl

end

theorem lastStatement?_tree (body : Tree) :
    (v.tree body).lastStatement? = body.lastStatement?.map v.tree := by
  unfold lastStatement? childNodes
  rw [children_tree, List.filter_filter, List.filter_filter, filter_trees, List.getLast?_map]
  · simp
  · intro t passed
    have comment := v.passesOver_comment passed
    cases t with
    | token | missing => simp [isNode, nodeKind?]
    | node r k s cs =>
        obtain rfl : k = .blockComment := by simpa [isComment] using comment
        simp [nodeKind?]

/-! ## Blame -/

/-- The suspect as it is seen. -/
def suspect (s : Suspect) : Suspect := ⟨v.span s.opener, s.body.map v.tree⟩

theorem inward_suspect (closer : Kind) (s : Suspect) :
    (v.suspect s).inward closer = (v.suspect (s.inward closer).1, (s.inward closer).2) := by
  have last : (v.suspect s).body >>= lastStatement? =
      (s.body >>= lastStatement?).map v.tree := by
    cases body : s.body with
    | none => simp [suspect, body]
    | some b => simp [suspect, body, lastStatement?_tree]
  unfold Suspect.inward
  rw [last]
  cases s.body >>= lastStatement? with
  | none => rfl
  | some t =>
      dsimp only [Option.map_some]
      rw [isClosedBy_tree, firstToken?_tree, children_tree, trailingBodyOf?_trees]
      split
      · cases t.firstToken? <;> rfl
      · rfl

end View

/-! ## Blame ends -/

namespace Tree

mutual

/-- The body that a tree ends with is in the tree. -/
theorem trailingBody?_mem : ∀ {t b : Tree}, t.trailingBody? = some b → b ∈ t.elements
  | .token .., _, h => by cases h
  | .missing .., _, h => by cases h
  | .node r k s cs, b, h => by
      cases k
      case block =>
        cases h
        exact self_mem_elements _
      case elseifClause => exact List.mem_cons_of_mem _ (trailingBodyOf?_mem h)
      case elseClause => exact List.mem_cons_of_mem _ (trailingBodyOf?_mem h)
      all_goals cases h

theorem trailingBodyOf?_mem : ∀ {ts : List Tree} {b : Tree}, trailingBodyOf? ts = some b →
    b ∈ elementsAll ts
  | [], _, h => by cases h
  | t :: ts, b, h => by
      rw [trailingBodyOf?] at h
      rw [elementsAll]
      cases rest : trailingBodyOf? ts with
      | some c =>
          rw [rest] at h
          cases h
          exact List.mem_append_right _ (trailingBodyOf?_mem rest)
      | none =>
          rw [rest] at h
          exact List.mem_append_left _ (trailingBody?_mem h)

end

theorem size_trailingBodyOf?_lt {t b : Tree} (h : trailingBodyOf? t.children = some b) :
    b.size < t.size := by
  have inside := trailingBodyOf?_mem h
  rw [elementsAll_eq_flatMap, List.mem_flatMap] at inside
  obtain ⟨c, child, mem⟩ := inside
  exact Nat.lt_of_le_of_lt (size_le_of_mem_elements mem) (size_lt_of_mem_children child)

theorem mem_children_of_lastStatement? {body last : Tree} (h : body.lastStatement? = some last) :
    last ∈ body.children :=
  (List.mem_filter.mp (List.mem_filter.mp (List.mem_of_getLast? h)).1).1

end Tree

namespace Suspect

open JassSyntax.Tree

/-- Suspicion moves to a smaller body, if there is one at all. -/
theorem inward_size {closer : Kind} {s : Suspect} (goes : (s.inward closer).2 = true) :
    (((s.inward closer).1.body).map size).getD 0 < (s.body.map size).getD 0 := by
  cases body : s.body with
  | none => simp [inward, body] at goes
  | some b =>
      unfold inward at goes ⊢
      simp only [body, Option.bind_eq_bind, Option.bind_some] at goes ⊢
      cases last : b.lastStatement? with
      | none => simp [last] at goes
      | some t =>
          simp only [last] at goes ⊢
          split at goes
          · next closed =>
            have smaller := size_lt_of_mem_children (mem_children_of_lastStatement? last)
            rw [if_pos closed]
            show ((trailingBodyOf? t.children).map size).getD 0 < b.size
            cases inside : trailingBodyOf? t.children with
            | none =>
                show 0 < b.size
                omega
            | some c =>
                have inner := size_trailingBodyOf?_lt inside
                show c.size < b.size
                omega
          · cases goes

end Suspect

/-- A loop whose steps commute with a map commutes with it, if every step that goes on shrinks its
state. -/
theorem Loop.run_map {α : Type} {size : α → Nat} {step : α → α × Bool} {f : α → α}
    (shrinks : ∀ a, (step a).2 = true → size (step a).1 < size a)
    (commutes : ∀ a, step (f a) = (f (step a).1, (step a).2)) (a : α) :
    run size step (f a) = f (run size step a) := by
  fun_induction run size step a with
  | case1 a before next more ih =>
      rw [run_eq (f a) (shrinks _), commutes, if_pos more.2]
      exact ih
  | case2 a before next done =>
      rw [run_eq (f a) (shrinks _), commutes, if_neg fun goes => done ⟨shrinks a goes, goes⟩]

namespace View

variable (v : View)

/-- Who is to blame does not depend on how closely one looks. -/
theorem blamed_trees (opener : Span) (ts : List Tree) (closer : Kind) :
    blamed (v.span opener) (v.trees ts) closer = v.span (blamed opener ts closer) := by
  unfold blamed
  have begun : (⟨v.span opener, Tree.trailingBodyOf? (v.trees ts)⟩ : Suspect) =
      v.suspect ⟨opener, Tree.trailingBodyOf? ts⟩ := by
    rw [trailingBodyOf?_trees]
    rfl
  rw [begun, Loop.run_map (fun _ => Suspect.inward_size) (v.inward_suspect closer)]
  rfl

end View

end JassSyntax
