import JassSyntax.Proofs.Reading.Conservation
import JassSyntax.Proofs.Views.Programs

/-!
# Comments aside

The grammar's own view of a tree passes over comments and sees all places. In this view a stream of
tokens looks like the stream that has lost its comments, so both are read alike. In a program every
comment is passed over. One with a role would still be seen in what was read without comments.
-/

namespace JassSyntax

namespace Tree

mutual

/-- The tree without the comments in it. -/
def withoutComments : Tree → Tree
  | token r t => token r t
  | missing r k p => missing r k p
  | node r k s cs => node r k s (withoutCommentsAll cs)

/-- The trees that are no comments, without the comments in them. -/
def withoutCommentsAll : List Tree → List Tree
  | [] => []
  | t :: ts =>
    if t.isComment then withoutCommentsAll ts else withoutComments t :: withoutCommentsAll ts

end

mutual

/-- The tree, where nothing is said about the place of a node. -/
def unspanned : Tree → Tree
  | token r t => token r t
  | missing r k p => missing r k p
  | node r k _ cs => node r k default (unspannedAll cs)

/-- The trees, where nothing is said about the places of nodes. -/
def unspannedAll : List Tree → List Tree
  | [] => []
  | t :: ts => unspanned t :: unspannedAll ts

end

/-- A comment of a stream holds a token that is a comment. -/
theorem Comment.trivia_leaf {t : Tree} (h : t.Comment) : ∃ u ∈ t.leaves, u.isTrivia = true := by
  cases h with
  | @token role t trivia => exact ⟨t, List.mem_cons_self, trivia⟩
  | @block opening rest first _ =>
      refine ⟨opening, ?_, first⟩
      rw [blockComment, leaves_ofChildren]
      exact List.mem_cons_self

mutual

/-- Where no leaf is a comment, there are no comments to go. -/
theorem withoutComments_of_leaves : ∀ t : Tree, t.Remarked →
    (∀ u ∈ t.leaves, u.isTrivia = false) → t.withoutComments = t
  | .token .., _, _ => by rw [withoutComments]
  | .missing .., _, _ => by rw [withoutComments]
  | .node r k s cs, remarked, plain => by
      rw [withoutComments,
        withoutCommentsAll_of_leaves cs (fun c child => remarked.of_child child) plain]

theorem withoutCommentsAll_of_leaves : ∀ ts : List Tree, (∀ t ∈ ts, t.Remarked) →
    (∀ u ∈ leavesAll ts, u.isTrivia = false) → withoutCommentsAll ts = ts
  | [], _, _ => by rw [withoutCommentsAll]
  | t :: ts, remarked, plain => by
      have here : ∀ u ∈ t.leaves, u.isTrivia = false := fun u leaf =>
        plain u (List.mem_append_left _ leaf)
      have other : ¬t.isComment = true := fun comment => by
        obtain ⟨u, leaf, trivia⟩ :=
          ((remarked t List.mem_cons_self) t (self_mem_elements t) comment).trivia_leaf
        rw [here u leaf] at trivia
        cases trivia
      rw [withoutCommentsAll, if_neg other,
        withoutComments_of_leaves t (remarked t List.mem_cons_self) here,
        withoutCommentsAll_of_leaves ts (fun u mem => remarked u (List.mem_cons_of_mem t mem))
          fun u leaf => plain u (List.mem_append_right _ leaf)]

end

end Tree

/-! ## The view of the grammar -/

namespace View

/-- Comments are passed over, and all places are seen. -/
def grammar : View := ⟨false, id⟩

open JassSyntax.Tree

@[simp] theorem token_grammar (t : Token) : grammar.token t = t := rfl

theorem error_grammar : grammar.error = id := rfl

theorem passesOver_grammar {t : Tree} (comment : t.isComment = true) (plain : t.role = none) :
    grammar.passesOver t = true := by
  simp [passesOver, grammar, comment, plain]

/-- A comment that is not passed over leaves a comment among the leaves. -/
theorem grammar_passesOver_comment {t : Tree} (h : t.Comment)
    (plain : ∀ u ∈ (grammar.tree t).leaves, u.isTrivia = false) :
    grammar.passesOver t = true := by
  cases h with
  | token trivia =>
      have other := plain _ List.mem_cons_self
      rw [token_grammar, trivia] at other
      cases other
  | block => exact passesOver_grammar rfl rfl

mutual

/-- Where no comment is seen, only comments and the spans of nodes are overlooked. -/
theorem tree_grammar : ∀ t : Tree, t.Remarked →
    (∀ u ∈ (grammar.tree t).leaves, u.isTrivia = false) →
    grammar.tree t = t.withoutComments.unspanned
  | .token .., _, _ => by rw [withoutComments, unspanned, tree, token_grammar]
  | .missing .., _, _ => by rw [withoutComments, unspanned, tree]; rfl
  | .node r k s cs, remarked, plain => by
      rw [tree] at plain
      rw [withoutComments, unspanned, tree,
        trees_grammar cs (fun c child => remarked.of_child child) plain]

theorem trees_grammar : ∀ ts : List Tree, (∀ t ∈ ts, t.Remarked) →
    (∀ u ∈ leavesAll (grammar.trees ts), u.isTrivia = false) →
    grammar.trees ts = unspannedAll (withoutCommentsAll ts)
  | [], _, _ => by rw [withoutCommentsAll, unspannedAll, trees_nil]
  | t :: ts, remarked, plain => by
      have rest : ∀ u ∈ ts, u.Remarked := fun u mem => remarked u (List.mem_cons_of_mem t mem)
      rw [trees_cons] at plain ⊢
      rw [withoutCommentsAll]
      by_cases passed : grammar.passesOver t = true
      · rw [if_pos passed] at plain ⊢
        rw [if_pos (grammar.passesOver_comment passed), trees_grammar ts rest plain]
      · rw [if_neg passed] at plain ⊢
        have here : ∀ u ∈ (grammar.tree t).leaves, u.isTrivia = false := fun u leaf =>
          plain u (List.mem_append_left _ leaf)
        have other : ¬t.isComment = true := fun comment =>
          passed (grammar_passesOver_comment
            (remarked t List.mem_cons_self t (self_mem_elements t) comment) here)
        rw [if_neg other, unspannedAll, tree_grammar t (remarked t List.mem_cons_self) here,
          trees_grammar ts rest fun u leaf => plain u (List.mem_append_right _ leaf)]

end

mutual

/-- The grammar sees no token that is not there. -/
theorem leaves_grammar_subset : ∀ t : Tree, (grammar.tree t).leaves ⊆ t.leaves
  | .token .. => by rw [tree, token_grammar]; exact fun _ leaf => leaf
  | .missing .. => by rw [tree]; exact fun _ leaf => leaf
  | .node r k s cs => by
      rw [tree]
      exact leavesAll_grammar_subset cs

theorem leavesAll_grammar_subset : ∀ ts : List Tree,
    leavesAll (grammar.trees ts) ⊆ leavesAll ts
  | [] => by rw [trees_nil]; exact fun _ leaf => leaf
  | t :: ts => by
      have here := leaves_grammar_subset t
      have rest := leavesAll_grammar_subset ts
      rw [trees_cons, leavesAll_cons]
      split
      · exact fun u leaf => List.mem_append_right _ (rest leaf)
      · rw [leavesAll_cons]
        exact List.append_subset.mpr
          ⟨fun u leaf => List.mem_append_left _ (here leaf),
            fun u leaf => List.mem_append_right _ (rest leaf)⟩

end

end View

/-! ## Streams without comments -/

namespace Items

open JassSyntax.Tree

/-- The stream without the comments in it. -/
def plain (ts : List Token) : List Token := ts.filter fun t => !t.isTrivia

theorem plain_cons_of_trivia {t : Token} (h : t.isTrivia = true) (ts : List Token) :
    plain (t :: ts) = plain ts := by
  simp [plain, h]

theorem plain_cons_of_significant {t : Token} (h : t.isTrivia = false) (ts : List Token) :
    plain (t :: ts) = t :: plain ts := by
  simp [plain, h]

theorem beforeEof_plain (ts : List Token) : beforeEof (plain ts) = plain (beforeEof ts) := by
  induction ts with
  | nil => rfl
  | cons t ts ih =>
      by_cases eof : t.kind = .eof
      · simp [plain, beforeEof, Token.isTrivia, eof, Kind.isTrivia]
      rw [beforeEof_cons eof]
      cases trivia : t.isTrivia with
      | true => rw [plain_cons_of_trivia trivia, plain_cons_of_trivia trivia, ih]
      | false =>
          rw [plain_cons_of_significant trivia, plain_cons_of_significant trivia,
            beforeEof_cons eof, ih]

theorem plain_takePart (kind : Kind) (trivia : kind.isTrivia = true) (role : Role)
    (ts : List Token) :
    plain (beforeEof (takePart kind role ts).2) = plain (beforeEof ts) := by
  cases ts with
  | nil => rfl
  | cons t ts =>
      by_cases same : t.kind = kind
      · have other : t.kind ≠ .eof := fun eof => by
          rw [← same, eof] at trivia
          cases trivia
        rw [takePart, if_pos same, beforeEof_cons other,
          plain_cons_of_trivia (by rw [Token.isTrivia, same, trivia])]
      · rw [takePart, if_neg same]

/-- Comments that wait for an item are passed over, so the grammar sees the other tokens only. -/
theorem group_grammar (items : Array Item) (comments : Array Tree) (ts : List Token)
    (passed : ∀ t ∈ comments.toList, View.grammar.passesOver t = true) :
    (group items comments ts).items.map View.grammar.item =
        items.toList.map View.grammar.item ++ (plain (beforeEof ts)).map (Item.mk []) ∧
      View.grammar.trees (group items comments ts).trailing = [] := by
  fun_induction group items comments ts with
  | case1 items comments => exact ⟨by simp [plain, beforeEof], View.grammar.trees_eq_nil passed⟩
  | case2 items comments t ts h =>
      exact ⟨by simp [plain, beforeEof, h], View.grammar.trees_eq_nil passed⟩
  | case3 items comments t ts h ih | case4 items comments t ts h ih
  | case5 items comments t ts h ih =>
      have trivia : t.isTrivia = true := by rw [Token.isTrivia, h]; rfl
      rw [beforeEof_cons (by rw [h]; decide), plain_cons_of_trivia trivia]
      refine ih fun u mem => ?_
      rw [Array.toList_push, List.mem_append, List.mem_singleton] at mem
      rcases mem with mem | rfl
      · exact passed u mem
      · exact View.passesOver_grammar trivia rfl
  | case6 items comments t ts h content closing ih =>
      have trivia : t.isTrivia = true := by rw [Token.isTrivia, h]; rfl
      rw [beforeEof_cons (by rw [h]; decide), plain_cons_of_trivia trivia,
        ← plain_takePart .blockCommentContent rfl .content ts,
        ← plain_takePart .blockCommentEnd rfl .closing]
      refine ih fun u mem => ?_
      rw [Array.toList_push, List.mem_append, List.mem_singleton] at mem
      rcases mem with mem | rfl
      · exact passed u mem
      · exact View.passesOver_grammar rfl rfl
  | case7 items comments t ts hEof hLine hContent hEnd hStart ih =>
      have significant : t.isTrivia = false := by
        rw [Token.isTrivia]
        cases k : t.kind <;> first | rfl | contradiction
      obtain ⟨all, none⟩ := ih (by simp)
      refine ⟨?_, none⟩
      rw [all, beforeEof_cons hEof, plain_cons_of_significant significant]
      simp [View.item, View.grammar.trees_eq_nil passed]

end Items

namespace Program

open JassSyntax.Items (plain)

/-- A stream looks to the grammar like the stream without its comments. -/
theorem alike_plain (tokens : List Token) :
    (Parser.ofTokens tokens).Alike .grammar (Parser.ofTokens (plain tokens)) := by
  have first := Items.group_grammar #[] #[] tokens (by simp)
  have second := Items.group_grammar #[] #[] (plain tokens) (by simp)
  have eof : (plain tokens).find? (fun t => t.kind == .eof) =
      tokens.find? fun t => t.kind == .eof := by
    rw [plain, List.find?_filter]
    congr 1
    funext t
    cases eof : t.kind == .eof with
    | true => simp [Token.isTrivia, beq_iff_eq.mp eof, Kind.isTrivia]
    | false => simp
  have twice : plain (Items.beforeEof (plain tokens)) = plain (Items.beforeEof tokens) := by
    rw [Items.beforeEof_plain, plain, plain, List.filter_filter]
    simp
  refine ⟨?_, ?_, ?_, rfl, rfl, rfl, rfl, rfl, rfl⟩
  · show ((Items.ofTokens (plain tokens)).items).map _ = ((Items.ofTokens tokens).items).map _
    rw [Items.ofTokens, Items.ofTokens, first.1, second.1, twice]
  · exact second.2.trans first.2.symm
  · show ((Items.ofTokens (plain tokens)).eof).map _ = ((Items.ofTokens tokens).eof).map _
    rw [Items.ofTokens, Items.ofTokens, Items.eof_group, Items.eof_group, eof]

theorem plain_leaves (limit : Nat) (tokens : List Token) :
    ∀ u ∈ (parseWithin limit (plain tokens)).1.leaves, u.isTrivia = false := by
  intro u leaf
  rw [leaves_parseWithin, Items.beforeEof_plain] at leaf
  simpa using (List.mem_filter.mp leaf).2

/-- **Comments change nothing.** With its comments and without them a stream has the same errors in
the same places, and the same tree but for the comments in it and the spans of nodes. -/
theorem parse_filter_isTrivia (tokens : List Token) :
    (parse tokens).2 = (parse (tokens.filter fun t => !t.isTrivia)).2 ∧
      (parse tokens).1.withoutComments.unspanned =
        (parse (tokens.filter fun t => !t.isTrivia)).1.unspanned := by
  obtain ⟨trees, errors⟩ := parseWithin_alike maxDepth (alike_plain tokens)
  rw [View.error_grammar, List.map_id, List.map_id] at errors
  -- What is seen of the two trees is the same. It has the leaves of the second, none of them a
  -- comment, so nothing but the comments and the spans of nodes is overlooked in the first.
  have leaves := plain_leaves maxDepth tokens
  have seen := fun u leaf => leaves u (View.leaves_grammar_subset _ leaf)
  have before := View.tree_grammar _ (remarked_parseWithin maxDepth tokens) (trees ▸ seen)
  have after := View.tree_grammar _ (remarked_parseWithin maxDepth (plain tokens)) seen
  rw [Tree.withoutComments_of_leaves _ (remarked_parseWithin _ _) leaves] at after
  exact ⟨errors.symm, before.symm.trans (trees.symm.trans after)⟩

end Program

end JassSyntax
