import JassSyntax.Proofs.Reading.Trace

/-!
# What every reading keeps

Reading goes forward only: items are used up from the front, complaints are added at the back, and
nesting and open blocks are as they were before. Both are read off the moves of a trace.
-/

namespace JassSyntax

namespace Parser

/-- The second parser is one that reading can reach from the first. -/
structure Later (p q : Parser) : Prop where
  ahead : q.ahead.toList <:+ p.ahead.toList
  errors : p.errors.toList <+: q.errors.toList
  trailing : q.trailing = p.trailing
  eof : q.eof = p.eof
  openClosers : q.openClosers = p.openClosers
  depth : q.depth = p.depth

namespace Later

variable {p q r : Parser}

theorem refl (p : Parser) : p.Later p :=
  ⟨List.suffix_refl _, List.prefix_refl _, rfl, rfl, rfl, rfl⟩

theorem trans (first : p.Later q) (second : q.Later r) : p.Later r where
  ahead := second.ahead.trans first.ahead
  errors := first.errors.trans second.errors
  trailing := second.trailing.trans first.trailing
  eof := second.eof.trans first.eof
  openClosers := second.openClosers.trans first.openClosers
  depth := second.depth.trans first.depth

theorem remaining_le (h : p.Later q) : q.remaining ≤ p.remaining := by
  unfold remaining
  rw [p.ahead.length_eq, q.ahead.length_eq]
  exact h.ahead.length_le

/-- What has no errors later had none before. -/
theorem clean (later : p.Later q) (clean : q.errors = #[]) : p.errors = #[] := by
  have errors := later.errors
  rw [clean] at errors
  exact Array.toList_eq_nil_iff.mp (List.prefix_nil.mp errors)

/-- Which comments wait does not matter. -/
theorem pending (h : p.Later q) (ts : List Tree) : p.Later { q with pending := ts } :=
  ⟨h.ahead, h.errors, h.trailing, h.eof, h.openClosers, h.depth⟩

end Later

theorem later_advance (p : Parser) (item : Item) : p.Later (p.advance item) :=
  ⟨List.tail_suffix _, List.prefix_refl _, rfl, rfl, rfl, rfl⟩

theorem later_complainAt (p : Parser) (span : Span) (c : Complaint) :
    p.Later (p.complainAt span c) := by
  refine ⟨List.suffix_refl _, ?_, rfl, rfl, rfl, rfl⟩
  show p.errors.toList <+: (p.errors.push _).toList
  rw [Array.toList_push]
  exact List.prefix_append _ _

theorem later_noticeEnd (p : Parser) : p.Later p.noticeEnd :=
  ⟨List.suffix_refl _, List.prefix_refl _, rfl, rfl, rfl, rfl⟩

theorem later_complainTooDeep (limit : Nat) (p : Parser) :
    p.Later (Level.complainTooDeep limit p) := by
  rcases Level.complainTooDeep_cases limit p with h | h <;> rw [h]
  · exact .refl p
  · exact later_complainAt p _ _

end Parser

namespace Parser.Later

variable {p : Parser} {f : Frame}

theorem attach {role : Option Role} {t : Tree} (h : p.Later f.parser) :
    p.Later (f.attach role t).parser :=
  h.pending []

theorem bump {role : Option Role} (h : p.Later f.parser) : p.Later (f.bump role).parser := by
  unfold Frame.bump
  dsimp only
  split
  · exact (h.trans (f.parser.later_advance _)).pending []
  · exact h.pending []

theorem bumps {n : Nat} (h : p.Later f.parser) : p.Later (f.bumps n).parser := by
  induction n generalizing f with
  | zero => exact h
  | succ n ih => exact ih h.bump

theorem skipAsError (h : p.Later f.parser) : p.Later f.skipAsError.parser :=
  (bump (f := f.parser.start .error) h).pending []

theorem close {closer : Kind} (h : p.Later f.parser) (closes : f.kind.closer = some closer) :
    p.Later f.close.parser := by
  rcases Frame.close_cases closes with ⟨_, e⟩ | ⟨_, span, e⟩ <;> rw [e]
  · exact h.bump
  · exact (h.trans (f.parser.later_complainAt _ _)).pending []

end Parser.Later

mutual

theorem Reads.later : ∀ {p q : Parser} {t : Tree}, Reads p t q → p.Later q
  | p, _, _, .leaf here => by
      simp only [Parser.takeLeaf, here]
      exact (p.later_advance _).pending _
  | _, _, _, .node _ _ grown => grown.later
  | _, _, _, .around _ _ first grown => (first.later.pending []).trans grown.later
  | p, _, _, .absent => p.later_complainAt _ _
  | p, _, _, .stray _ grown =>
      (Parser.Later.bump (f := Parser.start _ .error) (p.later_complainAt _ _)).trans grown.later
  | p, _, _, .tooDeep _ =>
      Parser.Later.bumps (f := Parser.start _ .error) (p.later_complainTooDeep _)
  | p, _, _, .absentTooDeep => p.later_complainTooDeep _
  | p, _, _, .noticing read => p.later_noticeEnd.trans read.later
  | p, _, _, .nested (q := q) read => by
      obtain ⟨ahead, errors, trailing, eof, closers, depth⟩ := read.later
      refine ⟨ahead, errors, trailing, eof, closers, ?_⟩
      show q.depth - 1 = p.depth
      rw [depth]
      rfl

theorem Grows.later : ∀ {f g : Frame}, Grows f g → f.parser.Later g.parser
  | f, _, .refl _ => .refl f.parser
  | _, _, .bump grown => grown.later.bump
  | _, _, .attach grown read => (grown.later.trans read.later).pending []
  | _, _, .notice grown => grown.later.trans (Parser.later_noticeEnd _)
  -- What was opened inside is closed again, so taking back as many closers as there were before
  -- leaves just those.
  | _, _, .block (g := g) (h := h) grown closes _ _ inside => by
      obtain ⟨ahead, errors, trailing, eof, closers, depth⟩ := inside.later
      refine Parser.Later.close (grown.later.trans ⟨ahead, errors, trailing, eof, ?_, depth⟩)
        (inside.kind ▸ closes)
      show h.parser.openClosers.take g.parser.openClosers.length = g.parser.openClosers
      rw [closers]
      exact List.take_left
  | _, _, .nested (g := g) (h := h) grown inside => by
      obtain ⟨ahead, errors, trailing, eof, closers, depth⟩ := inside.later
      refine grown.later.trans ⟨ahead, errors, trailing, eof, closers, ?_⟩
      show h.parser.depth - 1 = g.parser.depth
      rw [depth]
      rfl
  | _, _, .drop grown empty _ => grown.later.trans empty.later
  | _, _, .tooDeep grown _ _ => grown.later.trans (Parser.later_complainTooDeep _ _)

end

namespace Frame

theorem children_prefix_attach (f : Frame) (role : Option Role) (t : Tree) :
    f.children.toList <+: (f.attach role t).children.toList := by
  rw [children_attach, List.append_assoc]
  exact List.prefix_append _ _

theorem children_prefix_bump (f : Frame) (role : Option Role) :
    f.children.toList <+: (f.bump role).children.toList := by
  cases head : f.parser.ahead.head? with
  | some item =>
      rw [children_bump head, List.append_assoc, List.append_assoc]
      exact List.prefix_append _ _
  | none =>
      rw [bump_of_none head, children_flush]
      exact List.prefix_append _ _

theorem children_prefix_close {f : Frame} {closer : Kind} (closes : f.kind.closer = some closer) :
    f.children.toList <+: f.close.children.toList := by
  rcases close_cases closes with ⟨_, e⟩ | ⟨_, span, e⟩ <;> rw [e]
  · exact children_prefix_bump _ _
  · exact children_prefix_attach _ _ _

end Frame

/-- A frame keeps its children, and gets more after them. -/
theorem Grows.children : ∀ {f g : Frame}, Grows f g → f.children.toList <+: g.children.toList
  | _, _, .refl _ => List.prefix_refl _
  | _, _, .bump grown => grown.children.trans (Frame.children_prefix_bump _ _)
  | _, _, .attach (g := g) (q := q) grown _ =>
      grown.children.trans (Frame.children_prefix_attach { g with parser := q } _ _)
  | _, _, .notice grown | _, _, .drop grown _ _ | _, _, .tooDeep grown _ _ => grown.children
  | _, _, .nested grown inside => grown.children.trans inside.children
  | _, _, .block (g := g) (h := h) grown closes _ _ inside => by
      have closed := Frame.children_prefix_close
        (f := { h with parser := h.parser.leaveBlock g.parser.openClosers.length })
        (inside.kind ▸ closes)
      exact (grown.children.trans inside.children).trans closed

end JassSyntax
