import JassSyntax.Proofs.Tree.Comments
import JassSyntax.Proofs.Tree.Leaves

/-!
# From tokens to items

A stream of items has the tokens of its source up to the end of input. Comments stand in front of
its items, and what the grammar decides by is none.
-/

namespace JassSyntax

/-- A token that the grammar decides by. -/
def Token.isSignificant (t : Token) : Bool := !t.isTrivia && t.kind != .eof

/-- Comments stand before a significant token. -/
structure Item.Tidy (item : Item) : Prop where
  comments : ∀ t ∈ item.comments, t.Comment
  token : item.token.isSignificant = true

theorem Token.isTrivia_of_isSignificant {t : Token} (h : t.isSignificant = true) :
    t.isTrivia = false := by
  rw [isSignificant, Bool.and_eq_true, Bool.not_eq_true'] at h
  exact h.1

theorem Item.Tidy.plain {item : Item} (tidy : item.Tidy) : item.token.isTrivia = false :=
  Token.isTrivia_of_isSignificant tidy.token

/-- The comments before a token and the token itself. -/
def Item.trees (item : Item) : List Tree := item.comments ++ [.token none item.token]

theorem Item.mem_trees {item : Item} {c : Tree} :
    c ∈ item.trees ↔ c ∈ item.comments ∨ c = .token none item.token := by
  simp [Item.trees]

namespace Items

open JassSyntax.Tree

/-- The tokens of a stream of items, without its end-of-input token. -/
def leaves (s : Items) : List Token := s.items.flatMap Item.leaves ++ leavesAll s.trailing

/-- The tokens before the first end of input. -/
def beforeEof (ts : List Token) : List Token := ts.takeWhile fun t => t.kind != .eof

theorem beforeEof_cons {t : Token} (h : t.kind ≠ .eof) (ts : List Token) :
    beforeEof (t :: ts) = t :: beforeEof ts := by
  simp [beforeEof, h]

theorem takePart_leaves {kind : Kind} (h : kind ≠ .eof) (role : Role) (ts : List Token) :
    leavesAll (takePart kind role ts).1 ++ beforeEof (takePart kind role ts).2 = beforeEof ts := by
  cases ts with
  | nil => rfl
  | cons t ts =>
      by_cases ht : t.kind = kind
      · rw [beforeEof_cons (ht ▸ h)]
        simp [takePart, ht, Tree.leaves]
      · simp [takePart, ht]

theorem group_leaves (items : Array Item) (comments : Array Tree) (ts : List Token) :
    (group items comments ts).leaves =
      items.toList.flatMap Item.leaves ++ leavesAll comments.toList ++ beforeEof ts := by
  fun_induction group items comments ts with
  | case1 items comments => simp [leaves, beforeEof]
  | case2 items comments t ts h => simp [leaves, beforeEof, h]
  -- A line comment, and parts of a block comment that no comment has begun.
  | case3 items comments t ts h ih | case4 items comments t ts h ih
  | case5 items comments t ts h ih =>
      rw [ih, beforeEof_cons (by rw [h]; decide)]
      simp [Tree.leaves]
  | case6 items comments t ts h content closing ih =>
      rw [ih, beforeEof_cons (by rw [h]; decide)]
      have first := takePart_leaves (show Kind.blockCommentContent ≠ .eof by decide) .content ts
      have second :=
        takePart_leaves (show Kind.blockCommentEnd ≠ .eof by decide) .closing content.2
      rw [← first, ← second]
      simp [Tree.leaves, blockComment, leavesAll, content, closing]
  | case7 items comments t ts hEof hLine hContent hEnd hStart ih =>
      rw [ih, beforeEof_cons hEof]
      simp [Item.leaves, leavesAll]

theorem ofTokens_leaves (ts : List Token) : (ofTokens ts).leaves = beforeEof ts := by
  rw [ofTokens, group_leaves]
  rfl

/-- Where no comments are, every token is an item. -/
theorem group_of_significant : ∀ {ts : List Token} (items : Array Item),
    (∀ t ∈ beforeEof ts, t.isSignificant = true) →
    (group items #[] ts).items = items.toList ++ (beforeEof ts).map (Item.mk []) ∧
      (group items #[] ts).trailing = []
  | [], items, _ => by
      rw [group]
      simp [beforeEof]
  | t :: ts, items, h => by
      by_cases eof : t.kind = .eof
      · rw [group]
        simp [beforeEof, eof]
      rw [beforeEof_cons eof] at h ⊢
      have significant := h t List.mem_cons_self
      obtain ⟨all, none⟩ := group_of_significant (items.push ⟨[], t⟩)
        fun u mem => h u (List.mem_cons_of_mem t mem)
      have first : group items #[] (t :: ts) = group (items.push ⟨[], t⟩) #[] ts := by
        rw [group]
        revert significant eof
        rw [Token.isSignificant, Token.isTrivia]
        cases t.kind <;> simp [Kind.isTrivia]
      rw [first, all, none]
      simp

/-! ## The end of input -/

theorem find?_takePart {kind : Kind} (h : kind ≠ .eof) (role : Role) (ts : List Token) :
    (takePart kind role ts).2.find? (fun t => t.kind == .eof) =
      ts.find? fun t => t.kind == .eof := by
  cases ts with
  | nil => rfl
  | cons t ts =>
      by_cases ht : t.kind = kind
      · simp [takePart, ht, h]
      · simp [takePart, ht]

/-- The end of input of a stream is the first of its tokens. -/
theorem eof_group (items : Array Item) (comments : Array Tree) (ts : List Token) :
    (group items comments ts).eof = ts.find? fun t => t.kind == .eof := by
  fun_induction group items comments ts with
  | case1 items comments => rfl
  | case2 items comments t ts h => simp [h]
  | case3 items comments t ts h ih | case4 items comments t ts h ih
  | case5 items comments t ts h ih => simp [ih, h]
  | case6 items comments t ts h content closing ih =>
      rw [ih, find?_takePart (by decide), find?_takePart (by decide)]
      simp [h]
  | case7 items comments t ts hEof hLine hContent hEnd hStart ih =>
      have other : (t.kind == .eof) = false := beq_eq_false_iff_ne.mpr hEof
      rw [ih, List.find?_cons_of_neg (by rw [other]; exact Bool.false_ne_true)]

/-! ## Comments and tokens -/

theorem comment_of_mem_push {comments : Array Tree} {t : Tree}
    (hc : ∀ u ∈ comments.toList, u.Comment) (ht : t.Comment) :
    ∀ u ∈ (comments.push t).toList, u.Comment := by
  intro u hu
  rw [Array.toList_push, List.mem_append] at hu
  rcases hu with hu | hu
  · exact hc u hu
  · rw [List.mem_singleton.mp hu]
    exact ht

theorem mem_takePart {kind : Kind} {role : Role} {ts : List Token} {t : Tree}
    (h : t ∈ (takePart kind role ts).1) :
    ∃ part, t = .token (some role) part ∧ part.kind = kind := by
  unfold takePart at h
  split at h
  · split at h
    · next part _ same => exact ⟨part, List.mem_singleton.mp h, same⟩
    · cases h
  · cases h

theorem group_tidy (items : Array Item) (comments : Array Tree) (ts : List Token)
    (hi : ∀ item ∈ items.toList, item.Tidy) (hc : ∀ t ∈ comments.toList, t.Comment) :
    (∀ item ∈ (group items comments ts).items, item.Tidy) ∧
      ∀ t ∈ (group items comments ts).trailing, t.Comment := by
  fun_induction group items comments ts with
  | case1 items comments => exact ⟨hi, hc⟩
  | case2 items comments t ts h => exact ⟨hi, hc⟩
  | case3 items comments t ts h ih | case4 items comments t ts h ih
  | case5 items comments t ts h ih =>
      exact ih hi (comment_of_mem_push hc (.token (by simp [Token.isTrivia, h, Kind.isTrivia])))
  | case6 items comments t ts h content closing ih =>
      refine ih hi (comment_of_mem_push hc (.block (by simp [Token.isTrivia, h, Kind.isTrivia]) ?_))
      intro u hu
      rcases List.mem_append.mp hu with hu | hu
      · obtain ⟨part, rfl, kind⟩ := mem_takePart hu
        exact ⟨_, part, rfl, by simp [Token.isTrivia, kind, Kind.isTrivia]⟩
      · obtain ⟨part, rfl, kind⟩ := mem_takePart hu
        exact ⟨_, part, rfl, by simp [Token.isTrivia, kind, Kind.isTrivia]⟩
  | case7 items comments t ts hEof hLine hContent hEnd hStart ih =>
      refine ih (fun item h => ?_) (by simp)
      rw [Array.toList_push, List.mem_append] at h
      rcases h with h | h
      · exact hi item h
      · rw [List.mem_singleton.mp h]
        refine ⟨hc, ?_⟩
        rw [Token.isSignificant, Token.isTrivia]
        cases k : t.kind <;> first | rfl | contradiction

end Items

end JassSyntax
