import JassSyntax.Proofs.Reading.Progress
import JassSyntax.Proofs.Reading.Tidy
import JassSyntax.Proofs.Tree.Leaves

/-!
# Nothing is lost

A token is ahead of the parser, among the comments that wait for a parent, or a leaf of a tree that
has been read. Every move of a trace hands tokens on from one of these places to the next and keeps
their order.
-/

namespace JassSyntax

open JassSyntax.Tree

/-- The tokens that have not found their place in the tree, in source order. -/
def Parser.unplaced (p : Parser) : List Token :=
  leavesAll p.pending ++ p.ahead.toList.flatMap Item.leaves

namespace Frame

/-- The tokens below the node and those not placed yet, in source order. -/
def held (f : Frame) : List Token := leavesAll f.children.toList ++ f.parser.unplaced

/-- Comments wait in front of a node only until it gets its first child. -/
def Settled (f : Frame) : Prop := f.children = #[] ∨ f.parser.pending = []

theorem settled_bump (f : Frame) (role : Option Role) : (f.bump role).Settled :=
  .inr (f.pending_bump role)

theorem held_attach (f : Frame) (role : Option Role) (t : Tree) :
    (f.attach role t).held = leavesAll f.children.toList ++
      (leavesAll f.parser.pending ++ (t.leaves ++ f.parser.ahead.toList.flatMap Item.leaves)) := by
  simp [held, attach, flush, Parser.unplaced, leavesAll]

theorem held_bump (f : Frame) (role : Option Role) : (f.bump role).held = f.held := by
  cases h : f.parser.ahead.head? with
  | none =>
      unfold bump
      simp [held, flush, Parser.unplaced, h]
  | some item =>
      rw [bump_eq h]
      obtain ⟨rest, hrest⟩ := List.head?_eq_some_iff.mp h
      simp [held, Parser.unplaced, Parser.advance, leavesAll, leaves, Item.leaves, hrest]

theorem held_bumps (f : Frame) (n : Nat) : (f.bumps n).held = f.held := by
  induction n generalizing f with
  | zero => rfl
  | succ n ih => rw [bumps, ih, held_bump]

/-- Finishing a node moves its children out of the frame. -/
theorem held_finish {f : Frame} (h : f.Settled) :
    leavesAll f.finish.2.pending ++
        (f.finish.1.leaves ++ f.finish.2.ahead.toList.flatMap Item.leaves) = f.held := by
  rcases h with h | h <;> simp [held, finish, Parser.unplaced, h]

theorem held_close {f : Frame} {closer : Kind} (closes : f.kind.closer = some closer) :
    f.close.held = f.held := by
  rcases close_cases closes with ⟨_, h⟩ | ⟨_, span, h⟩ <;> rw [h]
  · exact f.held_bump _
  · exact held_attach _ _ _

theorem pending_close {f : Frame} {closer : Kind} (closes : f.kind.closer = some closer) :
    f.close.parser.pending = [] := by
  rcases close_cases closes with ⟨_, h⟩ | ⟨_, span, h⟩ <;> rw [h]
  · exact f.pending_bump _
  · rfl

end Frame

/-! ## Waiting comments -/

/-- Once no comments wait for a node, none will. -/
theorem Grows.pending_nil : ∀ {f g : Frame}, Grows f g → f.parser.pending = [] →
    g.parser.pending = []
  | _, _, .refl _, h => h
  | _, _, .bump _, _ => Frame.pending_bump _ _
  | _, _, .attach _ _, _ => rfl
  | _, _, .notice grown, h => grown.pending_nil h
  | _, _, .block _ closes _ _ inside, _ => Frame.pending_close (inside.kind ▸ closes)
  | _, _, .nested grown inside, h => inside.pending_nil (grown.pending_nil h)
  | _, _, .drop grown empty _, h => empty.pending_nil (grown.pending_nil h)
  | _, _, .tooDeep grown _ _, h =>
      (Level.complainTooDeep_pending _ _).trans (grown.pending_nil h)

/-- A node takes the comments that wait in front of it, and leaves none. -/
theorem Reads.pending_nil : ∀ {p q : Parser} {t : Tree}, Reads p t q → p.pending = [] →
    t.isNode = true → q.pending = []
  | p, _, _, .leaf here, _, shape => by
      simp only [Parser.takeLeaf, here] at shape
      cases shape
  | _, _, _, .node _ _ grown, free, _ => grown.pending_nil free
  | _, _, _, .around _ _ _ grown, _, _ => grown.pending_nil rfl
  | _, _, _, .absent, _, shape => by cases shape
  | _, _, _, .stray _ grown, _, _ => grown.pending_nil (Frame.pending_bump _ _)
  | _, _, _, .tooDeep (n := n) _, _, _ =>
      (Grows.refl _).bumps (n := n) |>.pending_nil (Frame.pending_bump _ none)
  | _, _, _, .absentTooDeep, _, shape => by cases shape
  | _, _, _, .noticing read, free, shape => read.pending_nil free shape
  | _, _, _, .nested read, free, shape => read.pending_nil free shape

theorem Grows.settled : ∀ {f g : Frame}, Grows f g → f.Settled → g.Settled
  | _, _, .refl _, h => h
  | _, _, .bump _, _ => Frame.settled_bump _ _
  | _, _, .attach _ _, _ => .inr rfl
  | _, _, .notice grown, h => grown.settled h
  | _, _, .block _ closes _ _ inside, _ => .inr (Frame.pending_close (inside.kind ▸ closes))
  | _, _, .nested grown inside, h => inside.settled (grown.settled h)
  -- Where no comments wait before a node that is dropped, none wait after it.
  | _, _, .drop grown empty _, h => (grown.settled h).imp_right empty.pending_nil
  | _, _, @Grows.tooDeep _ g limit grown _ _, h => by
      rcases Level.complainTooDeep_cases limit g.parser with e | e <;> rw [e]
      · exact grown.settled h
      · exact grown.settled h

/-! ## Every move hands tokens on -/

theorem Level.complainTooDeep_unplaced (limit : Nat) (p : Parser) :
    (complainTooDeep limit p).unplaced = p.unplaced := by
  rcases complainTooDeep_cases limit p with h | h <;> rw [h]
  rfl

mutual

theorem Reads.leaves_conserved : ∀ {p q : Parser} {t : Tree}, Reads p t q →
    leavesAll q.pending ++ (t.leaves ++ q.ahead.toList.flatMap Item.leaves) = p.unplaced
  | p, _, _, .leaf here => by
      obtain ⟨rest, hrest⟩ := List.head?_eq_some_iff.mp here
      simp [Parser.takeLeaf, here, Parser.advance, Parser.unplaced, Item.leaves, Tree.leaves, hrest]
  | _, _, _, .node _ _ grown => by
      rw [Frame.held_finish (grown.settled (.inl rfl)), grown.held_conserved]
      rfl
  -- The first child came with comments still waiting. They go in front of it.
  | _, _, _, .around _ _ first grown => by
      rw [Frame.held_finish (grown.settled (.inr rfl)), grown.held_conserved, Frame.held_attach]
      exact first.leaves_conserved
  | _, _, _, .absent => rfl
  | _, _, _, .stray _ grown => by
      rw [Frame.held_finish (grown.settled (Frame.settled_bump _ _)), grown.held_conserved,
        Frame.held_bump]
      rfl
  | p, _, _, @Reads.tooDeep _ limit _ _ => by
      rw [Frame.held_finish ((Grows.refl _).bumps.settled (.inl rfl)), Frame.held_bumps]
      exact Level.complainTooDeep_unplaced limit p
  | p, _, _, @Reads.absentTooDeep _ limit => Level.complainTooDeep_unplaced limit p
  | _, _, _, .noticing read => read.leaves_conserved
  | _, _, _, .nested read => read.leaves_conserved

theorem Grows.held_conserved : ∀ {f g : Frame}, Grows f g → g.held = f.held
  | _, _, .refl _ => rfl
  | _, _, .bump grown => by rw [Frame.held_bump, grown.held_conserved]
  | _, _, .attach grown read => by
      rw [Frame.held_attach, ← grown.held_conserved, Frame.held, ← read.leaves_conserved]
  | _, _, .notice grown => grown.held_conserved
  | _, _, .block grown closes _ _ inside =>
      (Frame.held_close (inside.kind ▸ closes)).trans
        (inside.held_conserved.trans grown.held_conserved)
  | _, _, .nested grown inside => inside.held_conserved.trans grown.held_conserved
  -- The dropped node holds nothing itself, so all that it was handed waits again.
  | _, _, .drop (h := h) grown empty childless => by
      have kept := empty.held_conserved
      rw [Frame.held, childless] at kept
      rw [← grown.held_conserved, Frame.held, Frame.held]
      exact congrArg _ kept
  | _, _, @Grows.tooDeep _ g limit grown _ _ => by
      rw [← grown.held_conserved, Frame.held, Level.complainTooDeep_unplaced]
      rfl

end

/-! ## Tokens that are no comments -/

theorem Tree.Comment.leaves_trivia {t : Tree} (h : t.Comment) :
    ∀ x ∈ t.leaves, x.isTrivia = true := by
  intro x leaf
  cases h with
  | token trivia => exact List.mem_singleton.mp leaf ▸ trivia
  | block first parts =>
      obtain ⟨c, mem, leaf⟩ := mem_leavesAll.mp leaf
      rcases List.mem_cons.mp mem with rfl | mem
      · exact List.mem_singleton.mp leaf ▸ first
      · obtain ⟨role, part, rfl, trivia⟩ := parts c mem
        exact List.mem_singleton.mp leaf ▸ trivia

/-- The tokens that are no comments. -/
def plainTokens (ts : List Token) : List Token := ts.filter fun x => !x.isTrivia

theorem plainTokens_append (ts us : List Token) :
    plainTokens (ts ++ us) = plainTokens ts ++ plainTokens us :=
  List.filter_append ..

theorem plainTokens_leavesAll {ts : List Tree} (comments : ∀ t ∈ ts, t.Comment) :
    plainTokens (leavesAll ts) = [] := by
  refine List.filter_eq_nil_iff.mpr fun x leaf => ?_
  obtain ⟨t, mem, leaf⟩ := mem_leavesAll.mp leaf
  simp [(comments t mem).leaves_trivia x leaf]

theorem plainTokens_items {items : List Item} (tidy : ∀ item ∈ items, item.Tidy) :
    plainTokens (items.flatMap Item.leaves) = items.map Item.token := by
  induction items with
  | nil => rfl
  | cons item items ih =>
      have here := tidy item List.mem_cons_self
      rw [List.flatMap_cons, plainTokens_append, ih fun other mem =>
        tidy other (List.mem_cons_of_mem item mem), Item.leaves, plainTokens_append,
        plainTokens_leavesAll here.comments]
      simp [plainTokens, here.plain]

/-- The tokens of the items are those before the end of input, comments aside. -/
theorem Items.tokens_ofTokens (tokens : List Token) :
    (ofTokens tokens).items.map Item.token = plainTokens (beforeEof tokens) := by
  have tidy := Parser.tidy_ofTokens tokens
  have comments : plainTokens (leavesAll (ofTokens tokens).trailing) = [] :=
    plainTokens_leavesAll tidy.trailing
  rw [← ofTokens_leaves, leaves, plainTokens_append, comments, List.append_nil]
  exact (plainTokens_items tidy.ahead).symm

theorem Parser.Tidy.plainTokens_unplaced {p : Parser} (tidy : p.Tidy) :
    plainTokens p.unplaced = p.ahead.toList.map Item.token := by
  rw [unplaced, plainTokens_append, plainTokens_leavesAll tidy.pending,
    plainTokens_items tidy.ahead, List.nil_append]

/-- Comments aside, the tokens of a tree are the next ones. -/
theorem Reads.plainTokens_conserved {p q : Parser} {t : Tree} (read : Reads p t q)
    (tidy : p.Tidy) :
    plainTokens t.leaves ++ q.ahead.toList.map Item.token = p.ahead.toList.map Item.token := by
  have conserved := congrArg plainTokens read.leaves_conserved
  have after := read.tidy tidy
  rwa [plainTokens_append, plainTokens_append, plainTokens_leavesAll after.pending,
    plainTokens_items after.ahead, tidy.plainTokens_unplaced, List.nil_append] at conserved

/-! ## Programs -/

namespace Program

/-- A program is read until nothing is ahead. -/
theorem loop_current {inner : Level} (h : inner.Progresses) (f : Frame) :
    (f.loop (step inner)).current = .eof := by
  refine Loop.run_rule (P := fun _ => True) (Q := fun g : Frame => g.current = .eof)
    (fun _ _ _ => trivial) ?_ ?_ trivial
  · intro g _ stop
    unfold step at stop ⊢
    dsimp only at stop ⊢
    split at stop
    · next here => rw [if_pos here, here]
    · split at stop <;> cases stop
  · intro g _ goes stalls
    exact absurd stalls (Nat.not_le_of_lt (step_remaining_lt h goes))

theorem leaves_finish {f : Frame} (h : f.parser.ahead.toList = []) :
    (finish f).leaves = f.held ++ leavesAll f.parser.trailing := by
  simp [finish, leaves, Frame.flush, Frame.held, Parser.unplaced, h]

theorem leaves_parseWithin (limit : Nat) (tokens : List Token) :
    (parseWithin limit tokens).1.leaves = Items.beforeEof tokens := by
  let start := (Parser.ofTokens tokens).start .program
  have grown : Grows start (start.loop (step (.stack limit limit))) := loop_grows limit tokens
  have tidy := grown.tidy (Parser.tidy_ofTokens tokens)
  have none := tidy.ahead_eq_nil (loop_current (Level.stack_progresses limit limit) start)
  calc (parseWithin limit tokens).1.leaves
      = start.held ++ leavesAll start.parser.trailing := by
        rw [← grown.held_conserved, ← grown.later.trailing]
        exact leaves_finish none
    _ = (Items.ofTokens tokens).leaves := rfl
    _ = Items.beforeEof tokens := Items.ofTokens_leaves tokens

/-- **Nothing is lost, doubled or moved.** The leaves of the tree are the tokens of the stream
before its first end of input, whatever the stream. -/
theorem leaves_parse (tokens : List Token) :
    (parse tokens).1.leaves = tokens.takeWhile fun t => t.kind != .eof :=
  leaves_parseWithin maxDepth tokens

end Program

end JassSyntax
