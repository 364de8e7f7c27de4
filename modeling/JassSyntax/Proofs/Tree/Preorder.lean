import JassSyntax.Proofs.Reading.Tidy
import JassSyntax.Proofs.Tree.Nodes
import JassSyntax.Proofs.Tree.Places
import JassSyntax.Proofs.Views.Names

/-!
# The walk and the recursion

The walk over a tree keeps a stack of what is still to be visited. What it finds is the list that a
recursion over the tree gives, each node before those below it, and that list is told by the places
of its nodes alone: it has every node once, in document order. The search for the first token of a
node is a recursion of its own, which passes over comments as a whole. Where comments hold nothing
else it finds the first token that is no comment.
-/

namespace JassSyntax.Tree

variable {t : Tree} {ts : List Tree}

/-! ## Rounds of the walk -/

theorem filter_elementsAll_filter (ts : List Tree) :
    (elementsAll (ts.filter isNode)).filter isNode = (elementsAll ts).filter isNode := by
  induction ts with
  | nil => rfl
  | cons t ts ih =>
      by_cases node : t.isNode = true
      · rw [List.filter_cons_of_pos node, elementsAll, elementsAll, List.filter_append,
          List.filter_append, ih]
      · have alone : (elements t).filter isNode = [] := by
          cases t with
          | token | missing => rfl
          | node => exact absurd rfl node
        rw [List.filter_cons_of_neg node, elementsAll, List.filter_append, alone, ih,
          List.nil_append]

/-- A round takes a node from the stack and puts the nodes among its children there, the last one
first. Tokens and placeholders on the stack make no difference. -/
theorem walk_of_isNode (node : t.isNode = true) (seen : Array Tree) (rest : List Tree) :
    walk seen (t :: rest) =
      walk (seen.push t) (t.childNodes.reverse.foldl (fun stack c => c :: stack) rest) := by
  have stack : t.childNodes.reverse.foldl (fun stack c => c :: stack) rest =
      t.childNodes ++ rest := by
    simp
  rw [walk, if_pos node, stack]
  apply Array.toList_inj.mp
  rw [toList_walk, toList_walk]
  congr 1
  simp only [elementsAll_eq_flatMap, List.flatMap_append, List.filter_append]
  rw [← elementsAll_eq_flatMap t.childNodes, childNodes, filter_elementsAll_filter,
    elementsAll_eq_flatMap]

/-! ## Recursion -/

mutual

/-- The node and all nodes below it, each before those below it. -/
def preorder : Tree → List Tree
  | token .. | missing .. => []
  | node r k s cs => node r k s cs :: preorderAll cs

/-- The nodes of the trees, one tree after the other. -/
def preorderAll : List Tree → List Tree
  | [] => []
  | t :: ts => preorder t ++ preorderAll ts

end

mutual

theorem filter_elements : (t : Tree) → t.elements.filter isNode = t.preorder
  | token .. | missing .. => rfl
  | node r k s cs => by
      rw [elements, preorder, List.filter_cons_of_pos rfl, filter_elementsAll cs]

theorem filter_elementsAll : (ts : List Tree) → (elementsAll ts).filter isNode = preorderAll ts
  | [] => rfl
  | t :: ts => by
      rw [elementsAll, preorderAll, List.filter_append, filter_elements t, filter_elementsAll ts]

end

/-- What a walk has seen in the end: what it had seen before, and the nodes of all that was pending,
one after the other. -/
theorem toList_walk_eq_preorder (seen : Array Tree) (pending : List Tree) :
    (walk seen pending).toList = seen.toList ++ preorderAll pending := by
  rw [toList_walk, filter_elementsAll]

/-! ## Document order -/

/-- The list has all elements of the tree that pass, each of them once, in document order. -/
def Enumerates (t : Tree) (passes : Tree → Bool) (es : List Tree) : Prop :=
  ∃ places : List (List Nat), places.Pairwise (· < ·) ∧
    (∀ place, place ∈ places ↔ ∃ way e, t.follow place = some (way, e) ∧ passes e = true) ∧
    List.Forall₂ (fun place e => ∃ way, t.follow place = some (way, e)) places es

mutual

theorem map_snd_leveled (depth : Nat) :
    (t : Tree) → (leveled depth t).map Prod.snd = t.elements
  | token .. | missing .. => rfl
  | node r k s cs => by
      rw [leveled, elements, List.map_cons, map_snd_leveledAll (depth + 1) cs]

theorem map_snd_leveledAll (depth : Nat) :
    (ts : List Tree) → (leveledAll depth ts).map Prod.snd = elementsAll ts
  | [] => rfl
  | t :: ts => by
      rw [leveledAll, elementsAll, List.map_append, map_snd_leveled depth t,
        map_snd_leveledAll depth ts]

end

/-- The elements of a tree are what its places lead to. -/
theorem forall₂_elements (t : Tree) :
    List.Forall₂ (fun place e => ∃ way, t.follow place = some (way, e)) t.places t.elements := by
  rw [← map_snd_leveled 0 t, List.forall₂_map_right_iff]
  exact (listedAt_leveled 0 t).imp fun _ _ listed => listed.2

/-- Whatever is asked for, the elements that pass are enumerated. -/
theorem enumerates_filter (t : Tree) (passes : Tree → Bool) :
    t.Enumerates passes (t.elements.filter passes) := by
  let leads (place : List Nat) : Bool := (t.follow place).any fun found => passes found.2
  refine ⟨t.places.filter leads, (pairwise_places t).filter leads, ?_, ?_⟩
  · intro place
    rw [List.mem_filter, mem_places]
    constructor
    · rintro ⟨_, leads⟩
      obtain ⟨⟨way, e⟩, found, pass⟩ := (Option.any_eq_true _ _).mp leads
      exact ⟨way, e, found, pass⟩
    · rintro ⟨way, e, found, pass⟩
      exact ⟨by rw [found]; rfl, by simp [leads, found, pass]⟩
  · refine List.rel_filter ?_ (forall₂_elements t)
    rintro place e ⟨way, found⟩
    simp [leads, found]

theorem findAll_eq (t : Tree) (k : NodeKind) :
    t.findAll k = t.elements.filter fun e => e.nodeKind? == some k := by
  rw [findAll, descendants_eq, List.filter_filter]
  congr 1
  funext e
  cases e with
  | token | missing => rfl
  | node => simp [isNode, nodeKind?]

/-! ## First tokens -/

/-- Block comments hold nothing but comments. -/
def CommentsApart (t : Tree) : Prop :=
  ∀ e ∈ t.elements, e.nodeKind? = some .blockComment → ∀ x ∈ e.leaves, x.isTrivia = true

theorem CommentsApart.of_element {e : Tree} (h : t.CommentsApart) (mem : e ∈ t.elements) :
    e.CommentsApart :=
  fun _ below => h _ (mem_elements_trans below mem)

theorem leadingTokenOf?_eq_find?
    (each : ∀ c ∈ ts, c.leadingToken? = c.leaves.find? fun x => !x.isTrivia) :
    leadingTokenOf? ts = (leavesAll ts).find? fun x => !x.isTrivia := by
  induction ts with
  | nil => rfl
  | cons t ts ih =>
      have rest := ih fun c mem => each c (List.mem_cons_of_mem t mem)
      rw [leadingTokenOf?, each t List.mem_cons_self, rest, leavesAll_cons, List.find?_append]
      exact Option.orElse_eq_or

theorem leadingToken?_eq_find? (apart : t.CommentsApart) :
    t.leadingToken? = t.leaves.find? fun x => !x.isTrivia := by
  induction t using children_induction with
  | step t ih =>
      cases t with
      | missing => rfl
      | token r x =>
          cases trivia : x.isTrivia <;> simp [leadingToken?, leaves, trivia]
      | node r k s cs =>
          rw [leadingToken?]
          split
          · next comment =>
            have only := apart _ (self_mem_elements _) (congrArg some comment)
            symm
            rw [List.find?_eq_none]
            intro x leaf
            rw [only x leaf]
            decide
          · refine leadingTokenOf?_eq_find? fun c child => ih c child ?_
            exact apart.of_element (mem_elements_of_child child)

theorem firstToken?_eq_find? (node : t.isNode = true) (apart : t.CommentsApart) :
    t.firstToken? = t.leaves.find? fun x => !x.isTrivia := by
  cases t with
  | token | missing => cases node
  | node r k s cs =>
      refine leadingTokenOf?_eq_find? fun c child => leadingToken?_eq_find? ?_
      exact apart.of_element (mem_elements_of_child child)

/-! ## The walk -/

/-- What a walk over the tree finds. -/
structure WalkedInOrder (t : Tree) : Prop where
  round : t.isNode = true → ∀ seen rest, walk seen (t :: rest) =
    walk (seen.push t) (t.childNodes.reverse.foldl (fun stack c => c :: stack) rest)
  descendants : t.descendants = t.preorder
  all : t.Enumerates isNode t.descendants
  kinds : ∀ k, t.Enumerates (fun e => e.nodeKind? == some k) (t.findAll k)
  firstToken : t.CommentsApart → ∀ n ∈ t.descendants,
    n.firstToken? = n.leaves.find? fun x => !x.isTrivia

/-- **The walk with a stack is the recursion.** It finds the nodes of a tree in document order, each
of them once, and so does the search for nodes of one kind. Where comments hold only comments, the
first token of a node is the first of its tokens from left to right that is no comment. -/
theorem walked_in_order (t : Tree) : t.WalkedInOrder where
  round := walk_of_isNode
  descendants := by
    rw [descendants, toList_walk_eq_preorder, preorderAll, preorderAll, List.append_nil]
    rfl
  all := by
    rw [descendants_eq]
    exact t.enumerates_filter isNode
  kinds k := by
    rw [findAll_eq]
    exact t.enumerates_filter _
  firstToken apart n mem := by
    obtain ⟨element, node⟩ := mem_descendants.mp mem
    exact firstToken?_eq_find? node (apart.of_element element)

/-- A comment in front of a call is passed over. -/
theorem firstToken?_behind_comment :
    let comment : Tree := .node none .blockComment default
      [.token (some .opening) ⟨.blockCommentStart, "/*", default⟩,
       .token (some .closing) ⟨.blockCommentEnd, "*/", default⟩]
    let t : Tree := .node none .expressionStatement default
      [comment, .token none ⟨.identifier, "f", default⟩]
    t.CommentsApart ∧
      ∀ n ∈ t.descendants, n.firstToken? = n.leaves.find? fun x => !x.isTrivia := by
  intro comment t
  have apart : t.CommentsApart := by
    unfold CommentsApart
    decide
  exact ⟨apart, (walked_in_order t).firstToken apart⟩

end JassSyntax.Tree

namespace JassSyntax.Program

open JassSyntax.Tree

/-- In the tree of a program comments hold only comments. -/
theorem commentsApart_parseWithin (limit : Nat) (tokens : List Token) :
    (parseWithin limit tokens).1.CommentsApart := by
  intro e mem comment
  apply Comment.leaves_trivia
  apply remarked_parseWithin limit tokens e mem
  cases e with
  | token | missing => cases comment
  | node => simpa [isComment, nodeKind?] using comment

end JassSyntax.Program
