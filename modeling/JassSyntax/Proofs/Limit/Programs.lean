import JassSyntax.Proofs.Limit.Levels

/-!
# Programs beyond the nesting limit

A program that reads without errors when there is room enough is cut off cleanly under any limit, if
its nesting can be cut off: at most one complaint is made, and it is about nesting.
-/

namespace JassSyntax.Program

variable {n limit : Nat} {tokens : List Token}

theorem severable_of_finish {room : Nat} {f : Frame} (program : f.kind = .program)
    (h : (finish f).isSeverable room = true) : f.Severable room := by
  have children : Tree.areSeverable room .program true
      (f.children.toList ++ (f.parser.pending ++ f.parser.trailing)) = true := by
    have whole : (f.flush.children ++ f.parser.trailing).toList =
        f.children.toList ++ (f.parser.pending ++ f.parser.trailing) := by
      rw [Array.toList_appendList, Frame.children_flush, List.append_assoc]
    rw [← whole]
    exact h
  rw [Tree.areSeverable_append, Bool.and_eq_true] at children
  rw [Frame.Severable, program]
  exact children.1

/-- Where `n` levels are enough to read a program without errors, fewer lead to one complaint about
nesting at most, if the nesting can be cut off where they end. -/
theorem parseWithin_cutsOnce (clean : (parseWithin n tokens).2 = [])
    (severable : (parseWithin n tokens).1.isSeverable limit = true) :
    (parseWithin limit tokens).2 = [] ∨
      ∃ e, (parseWithin limit tokens).2 = [e] ∧ e.kind = .nestingTooDeep := by
  let p := Parser.ofTokens tokens
  let f := (p.start .program).loop (step (.stack n n))
  have begun : Parser.InStep limit limit p p :=
    ⟨rfl, Parser.tidy_ofTokens tokens, List.forall_mem_nil _, rfl, rfl, Nat.zero_add limit,
      .inl rfl⟩
  have read : Frame.InStep limit limit f ((p.start .program).loop (step (.stack limit limit))) :=
    loop_alike ((Level.stack_inStep n limit limit).1 n) rfl begun
  have program : f.kind = .program := (loop_grows n tokens).kind
  have errors : f.parser.errors = #[] := Array.toList_eq_nil_iff.mp clean
  have step := (read.2 errors (severable_of_finish program severable)).2
  rcases step.cut with none | ⟨e, one, kind⟩
  · exact .inl (Array.toList_eq_nil_iff.mpr none)
  · exact .inr ⟨e, congrArg Array.toList one, kind⟩

/-- The same of the limit that is set. -/
theorem parse_cutsOnce (clean : (parseWithin n tokens).2 = [])
    (severable : (parseWithin n tokens).1.isSeverable maxDepth = true) :
    (parse tokens).2 = [] ∨ ∃ e, (parse tokens).2 = [e] ∧ e.kind = .nestingTooDeep :=
  parseWithin_cutsOnce clean severable

/-- The text `x = (a + b)` inside of 99 blocks. No level is left for the value. -/
theorem parse_cutsOnce_sum :
    let tokens : List Token := List.replicate 99 ⟨.kwDo, "do", default⟩ ++
      [⟨.identifier, "x", default⟩, ⟨.equals, "=", default⟩, ⟨.lParen, "(", default⟩,
        ⟨.identifier, "a", default⟩, ⟨.plus, "+", default⟩, ⟨.identifier, "b", default⟩,
        ⟨.rParen, ")", default⟩] ++
      List.replicate 99 ⟨.kwEnd, "end", default⟩
    (parseWithin 200 tokens).2 = [] ∧ (parseWithin 200 tokens).1.isSeverable maxDepth = true ∧
      (parse tokens).2 ≠ [] ∧
      ((parse tokens).2 = [] ∨ ∃ e, (parse tokens).2 = [e] ∧ e.kind = .nestingTooDeep) := by
  intro tokens
  have clean : (parseWithin 200 tokens).2 = [] := by decide +kernel
  have severable : (parseWithin 200 tokens).1.isSeverable maxDepth = true := by decide +kernel
  exact ⟨clean, severable, by decide +kernel, parse_cutsOnce clean severable⟩

end JassSyntax.Program
