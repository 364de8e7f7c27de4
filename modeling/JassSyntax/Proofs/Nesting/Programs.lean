import JassSyntax.Proofs.Nesting.Constructs
import JassSyntax.Proofs.Writing.Programs

/-!
# How deep programs nest

The nesting limit bounds the nesting of every program, but not its height. A chain of members is
read by one loop at one level, and is as high as it is long.
-/

namespace JassSyntax

namespace Program

variable {inner : Level} {m n : Nat}

theorem step_low (h : inner.Low n) (deep : n + 2 < m) {f : Frame} (low : f.Low m) :
    (step inner f).1.Low m := by
  unfold step
  dsimp only
  split
  · exact low
  · split
    · exact low.child (Statement.statement_shallow h low.tidy) deep
    · exact (low.complainAt _ _).skipAsError

theorem nesting_finish {f : Frame} (low : f.Low n) (kind : f.kind = .program) :
    (finish f).nesting ≤ n := by
  have comments : ∀ t ∈ f.parser.pending ++ f.parser.trailing, t.nesting < n := by
    intro t mem
    have comment : t.Comment :=
      (List.mem_append.mp mem).elim (low.tidy.pending t) (low.tidy.trailing t)
    have le := comment.nesting_le
    have room := low.room
    omega
  have all := Frame.nestingAll_children_le low.nesting comments
  rw [kind, ← List.append_assoc, ← Frame.children_flush] at all
  simpa [finish, Tree.nesting] using all

theorem parseWithin_nesting_le (limit : Nat) (tokens : List Token) :
    (parseWithin limit tokens).1.nesting ≤ 4 * (limit + 1) + 3 := by
  have begun : ((Parser.ofTokens tokens).start .program).Low (4 * (limit + 1) + 3) :=
    Frame.low_start (by omega) (Parser.tidy_ofTokens tokens) (by decide)
  exact nesting_finish
    (begun.loop fun _ low => step_low (Level.stack_low limit limit) (by omega) low)
    (loop_grows limit tokens).kind

end Program

/-! ## Chains -/

namespace Tree

mutual

theorem height_bare : ∀ t : Tree, t.bare.height = t.height
  | token .. | missing .. => by simp only [bare, height]
  | node _ _ _ cs => by
      simp only [bare, height]
      exact heightAll_bareAll cs

theorem heightAll_bareAll : ∀ ts : List Tree, heightAll (bareAll ts) = heightAll ts
  | [] => rfl
  | t :: ts => by rw [bareAll, heightAll, heightAll, height_bare t, heightAll_bareAll ts]

end

end Tree

namespace Abstract

/-- A name and so many members after it, each of the one before: `a.b.b.b`. -/
def dotted : Nat → Expr
  | 0 => .name "a"
  | n + 1 => .member (dotted n) "b"

theorem dotted_grouped (n : Nat) : (dotted n).grouped = true := by
  induction n with
  | zero => rfl
  | succ n ih =>
      have base : (dotted n).isBase = true := by cases n <;> rfl
      rw [dotted, Expr.grouped, base, ih]
      rfl

/-- All of a chain lies on one level. -/
theorem dotted_depth (n : Nat) : (dotted n).depth = 0 := by
  induction n with
  | zero => rfl
  | succ n ih => rw [dotted, Expr.depth, ih]

theorem height_dotted (n : Nat) : (dotted n).tree.height = n := by
  induction n with
  | zero => rfl
  | succ n ih =>
      rw [dotted, Expr.tree, build, Tree.height, Tree.heightAll, Tree.height_withRole, ih]
      simp [Tree.heightAll, mark, ident, word, Tree.height]

theorem bare_dotted (n : Nat) : ∀ t ∈ (dotted n).tree.leaves, t.bare = t := by
  induction n with
  | zero =>
      intro t mem
      rw [dotted, Expr.tree, leaves_ident, List.mem_singleton] at mem
      rw [mem]
      rfl
  | succ n ih =>
      intro t mem
      simp only [dotted, Expr.tree, leaves_build, Tree.leavesAll_cons, Tree.leaves_withRole,
        leaves_mark, leaves_ident, Tree.leavesAll_nil, List.append_nil, List.mem_append,
        List.mem_singleton] at mem
      rcases mem with mem | rfl | rfl
      · exact ih t mem
      · rfl
      · rfl

end Abstract

namespace Program

open Abstract

/-- A chain is read without errors, however long it is. -/
theorem parse_dotted (n : Nat) : ∃ tokens, (parse tokens).2 = [] ∧ n < (parse tokens).1.height := by
  let statements : List Stmt := [.expression (dotted n)]
  let words := (programTree statements).leaves
  have spelled : ∀ t ∈ words, t.bare = t := by
    intro t mem
    simp only [words, statements, programTree, leaves_build, bodyTrees, Stmt.tree, semicolon,
      Tree.leavesAll_cons, Tree.leavesAll_nil, List.append_nil, leaves_mark, List.mem_append,
      List.mem_singleton] at mem
    rcases mem with mem | rfl
    · exact bare_dotted n t mem
    · rfl
  have legible : words.all Token.isSignificant = true := by
    show (programTree statements).leaves.all _ = true
    rw [programTree, leaves_build]
    exact legible_body statements
  have inside : ∀ t ∈ words, (t.kind != .eof) = true := by
    intro t mem
    have significant := List.all_eq_true.mp legible t mem
    rw [Token.isSignificant, Bool.and_eq_true] at significant
    exact significant.2
  let tokens := words ++ [.spelled .eof]
  have written : (Items.beforeEof tokens).map Token.bare = words := by
    have whole : Items.beforeEof tokens = words ++ [] := List.takeWhile_append_of_pos inside
    rw [whole, List.append_nil]
    exact (List.map_congr_left spelled).trans (List.map_id words)
  have grouped : groupedBody statements = true := by
    simp [statements, groupedBody, Stmt.grouped, dotted_grouped]
  have flat : bodyDepth statements ≤ maxDepth := by
    simp [statements, bodyDepth, Stmt.depth, dotted_depth, maxDepth]
  obtain ⟨fine, same⟩ := parse_written statements grouped flat tokens written
  refine ⟨tokens, fine, ?_⟩
  rw [← Tree.height_bare, same]
  simp only [statements, programTree, bodyTrees, Stmt.tree, build, Tree.height, Tree.heightAll,
    height_dotted]
  omega

/-- **What the limit bounds.** The tree of every stream is shallow if chains of members, indices,
calls, updates, operations and lists count as one node each: its nesting is bounded by the limit
alone. So its height is bounded by the limit and the length of its longest chain. -/
theorem parse_nesting (tokens : List Token) :
    let t := (parse tokens).1
    t.nesting ≤ 4 * (maxDepth + 1) + 3 ∧
      t.height ≤ (4 * (maxDepth + 1) + 3) * (t.longestChain + 1) := by
  intro t
  have nesting : t.nesting ≤ 4 * (maxDepth + 1) + 3 := parseWithin_nesting_le maxDepth tokens
  refine ⟨nesting, ?_⟩
  calc t.height
      ≤ t.nesting * (t.longestChain + 1) + t.chain :=
        Tree.height_le fun _ mem => Tree.chain_le_longestChain mem
    _ = t.nesting * (t.longestChain + 1) := rfl
    _ ≤ _ := Nat.mul_le_mul_right _ nesting

/-- **What it does not bound.** The links of a chain are put around each other by loops that use up
no level, so a long chain makes a high tree. -/
theorem parse_height_unbounded : ¬∃ bound, ∀ tokens, (parse tokens).1.height ≤ bound := by
  rintro ⟨bound, low⟩
  obtain ⟨tokens, _, high⟩ := parse_dotted bound
  exact absurd (low tokens) (Nat.not_le_of_lt high)

end Program

end JassSyntax
