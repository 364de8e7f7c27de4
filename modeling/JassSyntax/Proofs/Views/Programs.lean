import JassSyntax.Proofs.Reading.Items
import JassSyntax.Proofs.Simulation.Levels
import JassSyntax.Proofs.Views.Parsers

/-!
# Programs that look alike

Streams of items that look alike in a view are read to trees that look alike, with errors that look
alike, under any nesting limit: what is put aside beyond the limit is counted in kinds too. Tokens
that look alike are grouped to such items.
-/

namespace JassSyntax

open Level

variable {v : View} {p q : Parser} {f g : Frame}

/-! ## At every level -/

theorem Parser.Alike.complainTooDeep (h : p.Alike v q) (limit : Nat) :
    (complainTooDeep limit p).Alike v (complainTooDeep limit q) := by
  have last : ∀ p : Parser, p.errors.back?.any (·.kind == .nestingTooDeep) =
      (p.errors.toList.map v.error).getLast?.any (·.kind == .nestingTooDeep) := by
    intro p
    rw [List.getLast?_map, Array.getLast?_toList]
    cases p.errors.back? <;> rfl
  unfold Level.complainTooDeep
  rw [last q, last p, h.errors]
  split
  · exact h
  · exact h.complain _

namespace View

theorem kinds_of_items {xs ys : List Item} (same : ys.map v.item = xs.map v.item) :
    ys.map (·.token.kind) = xs.map (·.token.kind) := by
  have kinds := congrArg (List.map (·.token.kind)) same
  rw [List.map_map, List.map_map] at kinds
  exact kinds

theorem unconditional (v : View) : v.simulation.Unconditional where
  kinds h := kinds_of_items h.ahead
  depth h := h.depth
  withDepth n h := h.withDepth n
  complainTooDeep limit h := h.complainTooDeep limit
  missing k h := ⟨h.missing k, h⟩
  parser h := h.parser
  withParser h same := h.withParser same
  kind h := h.kind
  bumps n h := h.bumps n
  around k h := (Frame.Alike.start k h.parser).attach none h.tree
  anywhere h := h
  ascend h := ⟨h.tree, h.parser.ascend⟩

end View

/-! ## Tokens -/

theorem View.kind_of_token {t u : Token} (same : v.token u = v.token t) :
    u.kind = t.kind :=
  show (v.token u).kind = (v.token t).kind from congrArg Token.kind same

namespace Items

/-- What of two streams of items is looked at is the same. -/
structure Alike (v : View) (s s' : Items) : Prop where
  items : s'.items.map v.item = s.items.map v.item
  trailing : v.trees s'.trailing = v.trees s.trailing
  eof : s'.eof.map v.token = s.eof.map v.token

theorem takePart_alike (kind : Kind) (role : Role) {ts us : List Token}
    (same : us.map v.token = ts.map v.token) :
    v.trees (takePart kind role us).1 = v.trees (takePart kind role ts).1 ∧
      (takePart kind role us).2.map v.token = (takePart kind role ts).2.map v.token := by
  cases ts with
  | nil =>
      cases List.map_eq_nil_iff.mp same
      exact ⟨rfl, rfl⟩
  | cons t ts =>
      obtain ⟨u, us, rfl, token, behind⟩ := List.map_eq_cons_iff.mp same
      rw [takePart, takePart, View.kind_of_token token]
      split
      · refine ⟨View.trees_singleton_congr ?_, behind⟩
        rw [View.tree, View.tree, token]
      · exact ⟨rfl, same⟩

theorem trees_push {comments comments' : Array Tree} {t u : Tree}
    (waiting : v.trees comments'.toList = v.trees comments.toList) (same : v.tree u = v.tree t) :
    v.trees (comments'.push u).toList = v.trees (comments.push t).toList := by
  rw [Array.toList_push, Array.toList_push, View.trees_append, View.trees_append, waiting,
    View.trees_singleton_congr same]

/-- Tokens are grouped by their kinds. -/
theorem group_alike {items items' : Array Item} {comments comments' : Array Tree}
    {ts us : List Token} (before : items'.toList.map v.item = items.toList.map v.item)
    (waiting : v.trees comments'.toList = v.trees comments.toList)
    (same : us.map v.token = ts.map v.token) :
    Alike v (group items comments ts) (group items' comments' us) := by
  fun_induction group items comments ts generalizing items' comments' us with
  | case1 items comments =>
      cases List.map_eq_nil_iff.mp same
      rw [group]
      exact ⟨before, waiting, rfl⟩
  | case2 items comments t ts h =>
      obtain ⟨u, us, rfl, token, behind⟩ := List.map_eq_cons_iff.mp same
      rw [group, (View.kind_of_token token).trans h]
      exact ⟨before, waiting, congrArg some token⟩
  | case3 items comments t ts h ih | case4 items comments t ts h ih
  | case5 items comments t ts h ih =>
      obtain ⟨u, us, rfl, token, behind⟩ := List.map_eq_cons_iff.mp same
      rw [group, (View.kind_of_token token).trans h]
      exact ih before (trees_push waiting (by rw [View.tree, View.tree, token])) behind
  | case6 items comments t ts h content =>
      rename_i closing ih
      obtain ⟨u, us, rfl, token, behind⟩ := List.map_eq_cons_iff.mp same
      rw [group, (View.kind_of_token token).trans h]
      obtain ⟨content', behind⟩ := takePart_alike .blockCommentContent .content behind
      obtain ⟨closing', behind⟩ := takePart_alike .blockCommentEnd .closing behind
      have opening := View.trees_singleton_congr (v := v) (t := .token (some .opening) t)
        (u := .token (some .opening) u) (by rw [View.tree, View.tree, token])
      refine ih before (trees_push waiting ?_) behind
      rw [Tree.blockComment, Tree.blockComment, View.tree_ofChildren, View.tree_ofChildren,
        ← List.singleton_append, ← List.singleton_append (x := Tree.token (some .opening) t)]
      simp only [View.trees_append, opening, content', closing', content, closing]
  | case7 items comments t ts hEof hLine hContent hEnd hStart ih =>
      obtain ⟨u, us, rfl, token, behind⟩ := List.map_eq_cons_iff.mp same
      rw [group, View.kind_of_token token]
      split <;> try contradiction
      refine ih ?_ rfl behind
      rw [Array.toList_push, Array.toList_push, List.map_append, List.map_append, before]
      simp only [List.map_cons, List.map_nil, View.item, token, waiting]

end Items

theorem Parser.alike_ofTokens {ts us : List Token} (same : us.map v.token = ts.map v.token) :
    (Parser.ofTokens ts).Alike v (Parser.ofTokens us) := by
  have grouped : Items.Alike v (Items.group #[] #[] ts) (Items.group #[] #[] us) :=
    Items.group_alike rfl rfl same
  exact ⟨grouped.items, grouped.trailing, grouped.eof, rfl, rfl, rfl, rfl, rfl, rfl⟩

/-! ## Programs -/

namespace Program

theorem tree_finish (h : f.Alike v g) : v.tree (finish g) = v.tree (finish f) := by
  simp only [finish, View.tree, Array.toList_appendList, View.trees_append, h.flush.children,
    h.parser.trailing]

/-- What looks alike is read alike. -/
theorem parseWithin_alike {ts us : List Token} (limit : Nat)
    (h : (Parser.ofTokens ts).Alike v (Parser.ofTokens us)) :
    v.tree (parseWithin limit us).1 = v.tree (parseWithin limit ts).1 ∧
      (parseWithin limit us).2.map v.error = (parseWithin limit ts).2.map v.error := by
  have read := loop_alike (v.unconditional.stack limit limit) rfl h
  exact ⟨tree_finish read, Frame.Alike.parser read |>.errors⟩

end Program

end JassSyntax
