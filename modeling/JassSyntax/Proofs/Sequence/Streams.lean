import JassSyntax.Proofs.Reading.Items

/-!
# Streams one behind the other

A token that is no part of a comment separates what stands in front of it from what stands behind:
the tokens in front become the items that they are by themselves, their last comments go to the
token, and so do the tokens behind it.
-/

namespace JassSyntax.Items

theorem takePart_append {kind : Kind} (role : Role) (ts : List Token) {t : Token}
    (other : t.kind ≠ kind) (rest : List Token) :
    takePart kind role (ts ++ t :: rest) =
      ((takePart kind role ts).1, (takePart kind role ts).2 ++ t :: rest) := by
  cases ts with
  | nil => rw [List.nil_append, takePart, takePart, if_neg other, List.nil_append]
  | cons u ts =>
      rw [List.cons_append, takePart, takePart]
      split <;> rfl

theorem mem_of_mem_takePart {kind : Kind} {role : Role} {ts : List Token} {t : Token}
    (mem : t ∈ (takePart kind role ts).2) : t ∈ ts := by
  cases ts with
  | nil => exact mem
  | cons u ts =>
      rw [takePart] at mem
      split at mem
      · exact List.mem_cons_of_mem u mem
      · exact mem

/-- What stands in front of a token is grouped first, if the token cannot belong to a comment. -/
theorem group_append (items : Array Item) (comments : Array Tree) {ts : List Token}
    (running : ∀ t ∈ ts, t.kind ≠ .eof) {t : Token} (content : t.kind ≠ .blockCommentContent)
    (closing : t.kind ≠ .blockCommentEnd) (rest : List Token) :
    group items comments (ts ++ t :: rest) =
      group (group items comments ts).items.toArray (group items comments ts).trailing.toArray
        (t :: rest) := by
  fun_induction group items comments ts with
  | case1 items comments => simp
  | case2 items comments u ts h => exact absurd h (running u List.mem_cons_self)
  | case3 items comments u ts h ih | case4 items comments u ts h ih
  | case5 items comments u ts h ih =>
      rw [List.cons_append, group, h]
      exact ih fun t mem => running t (List.mem_cons_of_mem u mem)
  | case6 items comments u ts h first last ih =>
      rw [List.cons_append, group, h]
      dsimp only
      rw [takePart_append .content ts content, takePart_append .closing _ closing]
      refine ih fun t mem => running t (List.mem_cons_of_mem u ?_)
      exact mem_of_mem_takePart (mem_of_mem_takePart mem)
  | case7 items comments u ts hEof hLine hContent hEnd hStart ih =>
      rw [List.cons_append, group]
      split <;> try contradiction
      exact ih fun t mem => running t (List.mem_cons_of_mem u mem)

/-- The items that were there before stay in front. -/
theorem group_items (before items : Array Item) (comments : Array Tree) (ts : List Token) :
    group (before ++ items) comments ts =
      { group items comments ts with
        items := before.toList ++ (group items comments ts).items } := by
  fun_induction group items comments ts with
  | case1 items comments => simp [group]
  | case2 items comments u ts h => simp [group, h]
  | case3 items comments u ts h ih | case4 items comments u ts h ih
  | case5 items comments u ts h ih => rw [group, h, ih]
  | case6 items comments u ts h first last ih => rw [group, h, ih]
  | case7 items comments u ts hEof hLine hContent hEnd hStart ih =>
      rw [group, ← ih, Array.append_push]
      split <;> first | contradiction | rfl

/-- A stream that ends. -/
theorem ofTokens_ended {ts : List Token} (running : ∀ t ∈ ts, t.kind ≠ .eof) {t : Token}
    (eof : t.kind = .eof) :
    ofTokens (ts ++ [t]) = { ofTokens ts with eof := some t } := by
  rw [ofTokens, group_append #[] #[] running (by rw [eof]; decide) (by rw [eof]; decide), group,
    eof]
  rfl

/-- A stream with a semicolon, which gets the last comments in front of it, and another stream. -/
theorem ofTokens_semicolon {ts : List Token} (running : ∀ t ∈ ts, t.kind ≠ .eof) {t : Token}
    (semicolon : t.kind = .semicolon) (rest : List Token) :
    ofTokens (ts ++ t :: rest) =
      { ofTokens rest with
        items := (ofTokens ts).items ++ ⟨(ofTokens ts).trailing, t⟩ :: (ofTokens rest).items } := by
  have pushed : (ofTokens ts).items.toArray.push ⟨(ofTokens ts).trailing, t⟩ =
      ((ofTokens ts).items.toArray.push ⟨(ofTokens ts).trailing, t⟩) ++ #[] := by simp
  rw [ofTokens, group_append #[] #[] running (by rw [semicolon]; decide)
    (by rw [semicolon]; decide), group, semicolon]
  show group ((ofTokens ts).items.toArray.push ⟨(ofTokens ts).trailing, t⟩) #[] rest = _
  rw [pushed, group_items]
  simp [ofTokens]

end JassSyntax.Items
