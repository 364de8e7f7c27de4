import JassSyntax.Parse
import JassSyntax.Proofs.Layout.Rescanning
import JassSyntax.Proofs.Views.Programs
import JassSyntax.Tree.Sexp

/-!
# Reformatted programs

A text is reformatted where gaps outside strings and block comments become white space that begins
with a line end. Its tokens have the same kinds and texts, only in other places. In the view that
sees no places the two streams look alike, and so do the programs read from them.
-/

namespace JassSyntax

/-! ## The view without places -/

namespace View

open JassSyntax.Tree

/-- All tokens are seen, wherever they stand. -/
def placeless : View := ⟨true, fun _ => .origin⟩

theorem token_placeless_of_texts {ts us : List Token}
    (same : us.map (fun t => (t.kind, t.text)) = ts.map fun t => (t.kind, t.text)) :
    us.map placeless.token = ts.map placeless.token := by
  have tokens := congrArg (List.map fun x : Kind × String => Token.mk x.1 x.2 (.empty .origin)) same
  rwa [List.map_map, List.map_map] at tokens

mutual

/-- An S-expression says nothing about places. -/
theorem sexpChild_placeless (parent : NodeKind) : ∀ t : Tree,
    sexpChild parent (placeless.tree t) = sexpChild parent t
  | .token r t => by rw [tree]; rfl
  | .missing r k p => by rw [tree]; rfl
  | .node r k s cs => by rw [tree, sexpChild, sexpChild, sexpChildren_placeless k cs]

theorem sexpChildren_placeless (parent : NodeKind) : ∀ ts : List Tree,
    sexpChildren parent (placeless.trees ts) = sexpChildren parent ts
  | [] => by rw [trees_nil]
  | t :: ts => by
      have seen : ¬placeless.passesOver t = true := by simp [passesOver, placeless]
      rw [trees_cons, if_neg seen, sexpChildren, sexpChildren, sexpChild_placeless parent t,
        sexpChildren_placeless parent ts]

end

theorem sexp_placeless (t : Tree) : (placeless.tree t).sexp = t.sexp := by
  cases t with
  | token | missing => rw [tree]; rfl
  | node r k s cs => rw [tree, sexp, sexp, sexpChildren_placeless]

end View

/-! ## Texts -/

/-- The second text is the first where some gaps outside strings and block comments, the one before
the end of input among them, have become white space that begins with a line end. -/
def Respaced (source text : String) : Prop :=
  ∃ qs, List.Forall₂ Piece.Respaced (pieces source .origin (scan source).1) qs ∧
    text = String.join (qs.map Piece.text)

theorem Scanner.like_ofString (source text : String) :
    (Scanner.ofString source).Like (Scanner.ofString text) :=
  ⟨rfl, rfl, rfl, rfl, fun _ _ other => by cases other⟩

/-- A text that is reformatted is scanned to the same tokens. -/
theorem scan_respaced {source text : String} (fine : (scan source).2 = [])
    (respaced : Respaced source text) :
    (scan text).2 = [] ∧ (scan text).1.map (fun t => (t.kind, t.text)) =
      (scan source).1.map fun t => (t.kind, t.text) := by
  obtain ⟨qs, gaps, rfl⟩ := respaced
  obtain ⟨e, steps, last, rest, errors⟩ := scan_steps source
  rw [errors, ← Array.toList_empty, Array.toList_inj] at fine
  obtain ⟨us, e', again, last', fine', same⟩ := steps.rescan (Scanner.at_ofString source) last rest
    fine (Scanner.like_ofString source (String.join (qs.map Piece.text))) gaps
    (by simp [Scanner.ofString, String.toList_join, List.flatMap_map])
  have run : (Scanner.ofString (String.join (qs.map Piece.text))).run #[] = (us.toArray, e') := by
    rw [again.run_eq last', Array.empty_append]
  rw [scan, run]
  exact ⟨congrArg Array.toList fine', same⟩

/-- **Reformatting changes nothing.** If a text is scanned without errors, so is every text that has
line ends and other white space in place of gaps before its tokens. The tokens have the same kinds
and texts, the trees are written alike, and the errors are the same in all but their places. -/
theorem parse_respaced {source text : String} (fine : (scan source).2 = [])
    (respaced : Respaced source text) :
    (scan text).2 = [] ∧
      (scan text).1.map (fun t => (t.kind, t.text)) =
        (scan source).1.map (fun t => (t.kind, t.text)) ∧
      (parse text).tree.sexp = (parse source).tree.sexp ∧
      (parse text).parseErrors.map (fun e => (e.kind, e.message, e.expected, e.found)) =
        (parse source).parseErrors.map fun e => (e.kind, e.message, e.expected, e.found) := by
  obtain ⟨scanned, tokens⟩ := scan_respaced fine respaced
  have alike := Parser.alike_ofTokens (View.token_placeless_of_texts tokens)
  obtain ⟨trees, errors⟩ := Program.parseWithin_alike Program.maxDepth alike
  refine ⟨scanned, tokens, ?_, ?_⟩
  · have sexps := congrArg Tree.sexp trees
    rwa [View.sexp_placeless, View.sexp_placeless] at sexps
  · have shown := congrArg (List.map fun e => (e.kind, e.message, e.expected, e.found)) errors
    rwa [List.map_map, List.map_map] at shown

/-- An assignment may stand on several lines. -/
theorem parse_respaced_assignment :
    (scan "x=1").2 = [] ∧ Respaced "x=1" "x\n=\n\t1\n" ∧ (scan "x\n=\n\t1\n").2 = [] ∧
      (parse "x\n=\n\t1\n").tree.sexp = (parse "x=1").tree.sexp := by
  have fine : (scan "x=1").2 = [] := by decide +kernel
  have tokens : (scan "x=1").1 = [⟨.identifier, "x", ⟨⟨0, 0, 0⟩, ⟨1, 0, 1⟩⟩⟩,
      ⟨.equals, "=", ⟨⟨1, 0, 1⟩, ⟨2, 0, 2⟩⟩⟩, ⟨.number, "1", ⟨⟨2, 0, 2⟩, ⟨3, 0, 3⟩⟩⟩,
      ⟨.eof, "", ⟨⟨3, 0, 3⟩, ⟨3, 0, 3⟩⟩⟩] := by decide +kernel
  have respaced : Respaced "x=1" "x\n=\n\t1\n" := by
    refine ⟨List.zipWith Piece.mk ["", "\n", "\n\t", "\n"] (scan "x=1").1, ?_, ?_⟩
    · rw [tokens]
      exact .cons ⟨rfl, .inl (by decide +kernel)⟩ <|
        .cons ⟨rfl, .inr ⟨rfl, List.all_eq_true.mp (by decide +kernel), '\n', rfl, rfl⟩⟩ <|
        .cons ⟨rfl, .inr ⟨rfl, List.all_eq_true.mp (by decide +kernel), '\n', rfl, rfl⟩⟩ <|
        .cons ⟨rfl, .inr ⟨rfl, List.all_eq_true.mp (by decide +kernel), '\n', rfl, rfl⟩⟩ .nil
    · rw [tokens]
      decide +kernel
  obtain ⟨scanned, _, sexp, _⟩ := parse_respaced fine respaced
  exact ⟨fine, respaced, scanned, sexp⟩

end JassSyntax
