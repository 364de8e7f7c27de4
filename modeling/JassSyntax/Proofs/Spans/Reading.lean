import JassSyntax.Proofs.Reading.Conservation
import JassSyntax.Proofs.Spans.Laid

/-!
# Reading keeps the order

The trees that are still to come are laid between the end of the last item and the end of the
stream. What is taken is laid before that place, so the children of every node are laid between the
place where the node began and the place where it ended. Placeholders stand at that place too, and
the comments before a token are children by the time that one can be put behind them.
-/

namespace JassSyntax

variable {source : String} {n : Nat}

namespace Parser

variable {p q : Parser}

/-- What has not been taken yet. -/
def toCome (p : Parser) : List Tree := p.ahead.toList.flatMap Item.trees ++ p.trailing

/-- The parser stands at a place of the text, and what is to come lies between there and `n`. -/
structure Stands (source : String) (n : Nat) (p : Parser) : Prop where
  placed : p.lastEnd.Placed source
  laid : Laid source p.lastEnd.offset p.toCome n

/-- What lies before the next item goes first, and behind the item the parser stands again. -/
theorem Stands.advance {item : Item} (stands : p.Stands source n)
    (here : p.ahead.head? = some item) :
    (p.advance item).Stands source n ∧
      Laid source p.lastEnd.offset item.trees (p.advance item).lastEnd.offset := by
  obtain ⟨rest, items⟩ := List.head?_eq_some_iff.mp here
  have laid := stands.laid
  have ahead : p.toCome = item.comments ++ ([.token none item.token] ++
      (rest.flatMap Item.trees ++ p.trailing)) := by
    simp [toCome, items, Item.trees]
  rw [ahead] at laid
  obtain ⟨m, comments, rest'⟩ := laid.split
  obtain ⟨before, lies, after⟩ := rest'
  have tail : (p.advance item).toCome = rest.flatMap Item.trees ++ p.trailing := by
    simp [toCome, Parser.advance, items]
  refine ⟨⟨lies.here.on.stop, ?_⟩, comments.append (.single before lies (Nat.le_refl _))⟩
  rw [tail]
  exact after

end Parser

namespace Frame

variable {a : Nat} {f : Frame}

/-- The children of the node are laid between `a` and the place where reading goes on. -/
def Laid (source : String) (a : Nat) (f : Frame) : Prop :=
  JassSyntax.Laid source a f.children.toList f.parser.lastEnd.offset

theorem stands_bump (stands : f.parser.Stands source n) (role : Option Role) :
    (f.bump role).parser.Stands source n := by
  cases head : f.parser.ahead.head? with
  | none =>
      rw [bump_of_none head]
      exact ⟨stands.placed, stands.laid⟩
  | some item =>
      rw [bump_eq head]
      have after := (stands.advance head).1
      exact ⟨after.placed, after.laid⟩

theorem stands_bumps (stands : f.parser.Stands source n) (k : Nat) :
    (f.bumps k).parser.Stands source n := by
  induction k generalizing f with
  | zero => exact stands
  | succ k ih => exact ih (stands_bump stands none)

/-- With no comments waiting, a token that is taken follows the children there are. -/
theorem laid_bump (laid : f.Laid source a) (stands : f.parser.Stands source n)
    (free : f.parser.pending = []) (role : Option Role) : (f.bump role).Laid source a := by
  cases head : f.parser.ahead.head? with
  | none =>
      rw [bump_of_none head, Laid, children_flush, free, List.append_nil]
      exact laid
  | some item =>
      obtain ⟨m, comments, token⟩ := (stands.advance head).2.split
      have stop : (f.bump role).parser.lastEnd = (f.parser.advance item).lastEnd := by
        rw [bump_eq head]
      rw [Laid, children_bump head, stop, free, List.append_nil, List.append_assoc]
      exact laid.append (comments.append (token.withRole role))

theorem laid_bumps (laid : f.Laid source a) (stands : f.parser.Stands source n)
    (free : f.parser.pending = []) (k : Nat) : (f.bumps k).Laid source a := by
  induction k generalizing f with
  | zero => exact laid
  | succ k ih => exact ih (laid_bump laid stands free _) (stands_bump stands _) (pending_bump _ _)

/-- A tree that was read follows the children there are, behind the comments before it. -/
theorem laid_attach {q : Parser} {t : Tree} {b : Nat}
    (laid : JassSyntax.Laid source a f.children.toList b)
    (read : JassSyntax.Laid source b (q.pending ++ [t]) q.lastEnd.offset) (role : Option Role) :
    ({ f with parser := q }.attach role t).Laid source a := by
  obtain ⟨m, comments, tree⟩ := read.split
  rw [Laid, children_attach, List.append_assoc]
  exact laid.append (comments.append (tree.withRole role))

/-- A placeholder stands at the end of the children. -/
theorem laid_insertMissing (laid : f.Laid source a) (placed : f.parser.lastEnd.Placed source)
    (free : f.parser.pending = []) (role : Option Role) (kind : Kind) :
    (f.insertMissing role kind).Laid source a := by
  refine laid_attach (q := f.parser) laid ?_ role
  rw [free]
  exact .single (Nat.le_refl _) (Tree.lies_missing placed _ _) (Nat.le_refl _)

/-- The finished node lies between the places where it began and where reading goes on. -/
theorem laid_finish (laid : f.Laid source a) (inner : f.kind ≠ .program)
    (placed : f.parser.lastEnd.Placed source) :
    JassSyntax.Laid source a [f.finish.1] f.finish.2.lastEnd.offset :=
  laid.ofChildren inner fun empty => by
    rw [Laid, empty] at laid
    exact ⟨placed, laid, Nat.le_refl _⟩

/-- Nothing is below a node that begins. -/
theorem laid_start (p : Parser) (kind : NodeKind) :
    (p.start kind).Laid source p.lastEnd.offset :=
  .nil (Nat.le_refl _)

theorem stands_close {closer : Kind} (stands : f.parser.Stands source n)
    (closes : f.kind.closer = some closer) : f.close.parser.Stands source n := by
  rcases close_cases closes with ⟨_, h⟩ | ⟨_, span, h⟩ <;> rw [h]
  · exact stands_bump stands _
  · exact ⟨stands.placed, stands.laid⟩

theorem laid_close {closer : Kind} (laid : f.Laid source a) (stands : f.parser.Stands source n)
    (free : f.parser.pending = []) (closes : f.kind.closer = some closer) :
    f.close.Laid source a := by
  rcases close_cases closes with ⟨_, h⟩ | ⟨_, span, h⟩ <;> rw [h]
  · exact laid_bump laid stands free _
  · exact laid_insertMissing laid stands.placed free _ _

end Frame

/-! ## Every move keeps the order -/

theorem Level.stands_complainTooDeep {p : Parser} (stands : p.Stands source n) (limit : Nat) :
    (complainTooDeep limit p).Stands source n := by
  rcases complainTooDeep_cases limit p with h | h <;> rw [h]
  · exact stands
  · exact ⟨stands.placed, stands.laid⟩

theorem Level.lastEnd_complainTooDeep (limit : Nat) (p : Parser) :
    (complainTooDeep limit p).lastEnd = p.lastEnd := by
  rcases complainTooDeep_cases limit p with h | h <;> rw [h]
  rfl

mutual

theorem Reads.stands : ∀ {p q : Parser} {t : Tree}, Reads p t q → p.Stands source n →
    q.Stands source n
  | p, _, _, .leaf here, stands => by
      have after := (stands.advance here).1
      simp only [Parser.takeLeaf, here]
      exact ⟨after.placed, after.laid⟩
  | _, _, _, .node _ _ grown, stands => grown.stands stands
  | _, _, _, .around _ _ first grown, stands =>
      have after := first.stands stands
      grown.stands ⟨after.placed, after.laid⟩
  | _, _, _, .absent, stands => ⟨stands.placed, stands.laid⟩
  | p, _, _, .stray (c := c) _ grown, stands =>
      grown.stands (Frame.stands_bump (f := (p.complain c).start .error)
        ⟨stands.placed, stands.laid⟩ none)
  | _, _, _, .tooDeep _, stands => Frame.stands_bumps (Level.stands_complainTooDeep stands _) _
  | _, _, _, .absentTooDeep, stands => Level.stands_complainTooDeep stands _
  | _, _, _, .noticing read, stands => read.stands ⟨stands.placed, stands.laid⟩
  | _, _, _, .nested read, stands =>
      have inside := read.stands ⟨stands.placed, stands.laid⟩
      ⟨inside.placed, inside.laid⟩

theorem Grows.stands : ∀ {f g : Frame}, Grows f g → f.parser.Stands source n →
    g.parser.Stands source n
  | _, _, .refl _, stands => stands
  | _, _, .bump grown, stands => Frame.stands_bump (grown.stands stands) _
  | _, _, .attach grown read, stands =>
      have after := read.stands (grown.stands stands)
      ⟨after.placed, after.laid⟩
  | _, _, .notice grown, stands =>
      have before := grown.stands stands
      ⟨before.placed, before.laid⟩
  | _, _, .block (h := h) grown closes _ _ inside, stands =>
      have before := grown.stands stands
      have after := inside.stands ⟨before.placed, before.laid⟩
      Frame.stands_close (f := { h with parser := h.parser.leaveBlock _ })
        ⟨after.placed, after.laid⟩ (inside.kind ▸ closes)
  | _, _, .nested grown inside, stands =>
      have before := grown.stands stands
      have after := inside.stands ⟨before.placed, before.laid⟩
      ⟨after.placed, after.laid⟩
  | _, _, .drop grown empty _, stands => empty.stands (grown.stands stands)
  | _, _, .tooDeep grown _ _, stands => Level.stands_complainTooDeep (grown.stands stands) _

end

mutual

/-- What is read lies behind the place of the parser, and the comments before it go first. -/
theorem Reads.laid : ∀ {p q : Parser} {t : Tree}, Reads p t q → p.Stands source n →
    p.pending = [] → Laid source p.lastEnd.offset (q.pending ++ [t]) q.lastEnd.offset
  | p, _, _, .leaf here, stands, free => by
      simp only [Parser.takeLeaf, here, free, List.nil_append]
      exact (stands.advance here).2
  | p, _, _, .node (f := f) kind construct grown, stands, free => by
      have filled := grown.laid stands free (Frame.laid_start p kind)
      have settled : f.finish.2.pending = [] := grown.pending_nil free
      rw [settled]
      exact Frame.laid_finish filled (grown.kind ▸ NodeKind.ne_program construct)
        (grown.stands stands).placed
  | p, _, _, @Reads.around _ q _ role f kind construct first grown, stands, free => by
      have after := first.stands stands
      have begun := Frame.laid_attach (f := q.start kind) (.nil (Nat.le_refl p.lastEnd.offset))
        (first.laid stands free) role
      have filled := grown.laid ⟨after.placed, after.laid⟩ rfl begun
      have settled : f.finish.2.pending = [] := grown.pending_nil rfl
      rw [settled]
      exact Frame.laid_finish filled (grown.kind ▸ NodeKind.ne_program construct)
        (grown.stands ⟨after.placed, after.laid⟩).placed
  | p, _, _, .absent, stands, free => by
      rw [show (p.complain _).pending = [] from free]
      exact .single (Nat.le_refl _) (Tree.lies_missing stands.placed _ _) (Nat.le_refl _)
  | p, _, _, .stray (c := c) (f := f) _ grown, stands, free => by
      have complained : (p.complain c).Stands source n := ⟨stands.placed, stands.laid⟩
      have begun := Frame.laid_bump (Frame.laid_start (p.complain c) .error) complained free
        none
      have after := Frame.stands_bump (f := (p.complain c).start .error) complained none
      have filled := grown.laid after (Frame.pending_bump _ _) begun
      have settled : f.finish.2.pending = [] := grown.pending_nil (Frame.pending_bump _ _)
      rw [settled]
      refine Frame.laid_finish filled ?_ (grown.stands after).placed
      rw [grown.kind, Frame.kind_bump]
      exact NodeKind.noConfusion
  | p, _, _, @Reads.tooDeep _ limit k _, stands, free => by
      have complained := Level.stands_complainTooDeep stands limit
      have settled := (Level.complainTooDeep_pending limit p).trans free
      have filled := Frame.laid_bumps (Frame.laid_start (Level.complainTooDeep limit p) .error)
        complained settled (k + 1)
      have after := Frame.stands_bumps (f := (Level.complainTooDeep limit p).start .error)
        complained (k + 1)
      have node := Frame.laid_finish filled
        (by rw [Frame.kind_bumps]; exact NodeKind.noConfusion) after.placed
      have empty : (((Level.complainTooDeep limit p).start .error).bumps
          (k + 1)).finish.2.pending = [] :=
        ((Grows.refl _).bumps).pending_nil settled
      rw [empty, ← Level.lastEnd_complainTooDeep limit p]
      exact node
  | p, _, _, @Reads.absentTooDeep _ limit, stands, free => by
      have complained := Level.stands_complainTooDeep stands limit
      rw [(Level.complainTooDeep_pending limit p).trans free]
      refine .single ?_ (Tree.lies_missing complained.placed _ _) (Nat.le_refl _)
      rw [← Level.lastEnd_complainTooDeep limit p]
      exact Nat.le_refl _
  | _, _, _, .noticing read, stands, free => read.laid ⟨stands.placed, stands.laid⟩ free
  | _, _, _, .nested read, stands, free => read.laid ⟨stands.placed, stands.laid⟩ free

/-- The children of a node stay in order. -/
theorem Grows.laid : ∀ {a : Nat} {f g : Frame}, Grows f g → f.parser.Stands source n →
    f.parser.pending = [] → f.Laid source a → g.Laid source a
  | _, _, _, .refl _, _, _, laid => laid
  | _, _, _, .bump grown, stands, free, laid =>
      Frame.laid_bump (grown.laid stands free laid) (grown.stands stands)
        (grown.pending_nil free) _
  | _, _, _, .attach grown read, stands, free, laid =>
      Frame.laid_attach (grown.laid stands free laid)
        (read.laid (grown.stands stands) (grown.pending_nil free)) _
  | _, _, _, .notice grown, stands, free, laid => grown.laid stands free laid
  | _, _, _, @Grows.block _ g h closers _ grown closes _ _ inside, stands, free,
      laid => by
      have before := grown.stands stands
      have entered : (g.parser.enterBlock closers).Stands source n := ⟨before.placed, before.laid⟩
      have after := inside.stands entered
      have filled := inside.laid entered (grown.pending_nil free) (grown.laid stands free laid)
      exact Frame.laid_close (f := { h with parser := h.parser.leaveBlock _ }) filled
        ⟨after.placed, after.laid⟩ (inside.pending_nil (grown.pending_nil free))
        (inside.kind ▸ closes)
  | _, _, _, .nested grown inside, stands, free, laid =>
      have before := grown.stands stands
      inside.laid ⟨before.placed, before.laid⟩ (grown.pending_nil free)
        (grown.laid stands free laid)
  -- The dropped node took nothing, so the next child may still stand where it began.
  | _, _, _, @Grows.drop _ g h kind grown empty childless, stands, free, laid => by
      have passed := empty.laid (grown.stands stands) (grown.pending_nil free)
        (Frame.laid_start g.parser kind)
      rw [Frame.Laid, childless] at passed
      exact (grown.laid stands free laid).mono passed
  | _, _, _, @Grows.tooDeep _ g limit grown _ _, stands, free, laid => by
      rw [Frame.Laid, Level.lastEnd_complainTooDeep]
      exact grown.laid stands free laid

end

end JassSyntax
