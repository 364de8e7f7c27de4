import JassSyntax.Proofs.Reading.Moves

/-!
# Traces of reading

Every construct of the grammar is read by the same few moves: a token becomes a child, a tree that
was read becomes a child, a complaint is made and leaves a mark in the tree. `Reads` and `Grows`
list these moves. What each move keeps, every reading keeps, so an invariant of the parser needs
one case for each move and none for the constructs.
-/

namespace JassSyntax

/-- Nodes that stand for something in a program: no comments, and nothing that is put aside. -/
def NodeKind.isConstruct : NodeKind → Bool
  | .program | .blockComment | .error => false
  | _ => true

theorem NodeKind.ne_program {k : NodeKind} (h : k.isConstruct = true) : k ≠ .program := by
  rintro rfl
  cases h

theorem NodeKind.ne_blockComment {k : NodeKind} (h : k.isConstruct = true) : k ≠ .blockComment := by
  rintro rfl
  cases h

theorem NodeKind.ne_error {k : NodeKind} (h : k.isConstruct = true) : k ≠ .error := by
  rintro rfl
  cases h

theorem NodeKind.isConstruct_of_closer {k : NodeKind} {closer : Kind}
    (h : k.closer = some closer) : k.isConstruct = true := by
  revert h
  cases k <;> (rintro ⟨⟩ <;> rfl)

mutual

/-- At the first parser the tree is read, and reading goes on at the second. -/
inductive Reads : Parser → Tree → Parser → Prop
  | leaf {p : Parser} {item : Item} (here : p.ahead.head? = some item) :
      Reads p p.takeLeaf.1 p.takeLeaf.2
  | node {p : Parser} {f : Frame} (kind : NodeKind) (construct : kind.isConstruct = true)
      (grown : Grows (p.start kind) f) : Reads p f.finish.1 f.finish.2
  /-- A node that begins with a tree that has been read. -/
  | around {p q : Parser} {t : Tree} {role : Option Role} {f : Frame} (kind : NodeKind)
      (construct : kind.isConstruct = true) (first : Reads p t q)
      (grown : Grows ((q.start kind).attach role t) f) : Reads p f.finish.1 f.finish.2
  /-- A placeholder for an operand. -/
  | absent {p : Parser} {c : Complaint} {kind : Kind} : Reads p (p.missing kind) (p.complain c)
  /-- A stray token and the operand after it. -/
  | stray {p : Parser} {c : Complaint} {f : Frame} (here : p.kind ≠ .eof)
      (grown : Grows ((p.complain c).start .error).bump f) : Reads p f.finish.1 f.finish.2
  /-- A region beyond the nesting limit. -/
  | tooDeep {p : Parser} {limit n : Nat} (here : p.ahead.toList ≠ []) :
      Reads p (((Level.complainTooDeep limit p).start .error).bumps (n + 1)).finish.1
        (((Level.complainTooDeep limit p).start .error).bumps (n + 1)).finish.2
  /-- A placeholder for an operand beyond the nesting limit. -/
  | absentTooDeep {p : Parser} {limit : Nat} :
      Reads p ((Level.complainTooDeep limit p).missing .identifier) (Level.complainTooDeep limit p)
  | noticing {p q : Parser} {t : Tree} (read : Reads p.noticeEnd t q) : Reads p t q
  | nested {p q : Parser} {t : Tree} (read : Reads { p with depth := p.depth + 1 } t q) :
      Reads p t q.ascend

/-- The first frame grows into the second. -/
inductive Grows : Frame → Frame → Prop
  | refl (f : Frame) : Grows f f
  | bump {f g : Frame} {role : Option Role} (grown : Grows f g) : Grows f (g.bump role)
  | attach {f g : Frame} {q : Parser} {t : Tree} {role : Option Role} (grown : Grows f g)
      (read : Reads g.parser t q) : Grows f ({ g with parser := q }.attach role t)
  | notice {f g : Frame} (grown : Grows f g) :
      Grows f { g with parser := g.parser.noticeEnd }
  /-- What is read while the kinds `closers` end bodies, and the closer after it. -/
  | block {f g h : Frame} {closers : List Kind} {closer : Kind} (grown : Grows f g)
      (closes : g.kind.closer = some closer) (nonempty : closers ≠ [])
      (closing : ∀ k ∈ closers, k.isClosingKeyword = true)
      (inside : Grows { g with parser := g.parser.enterBlock closers } h) :
      Grows f { h with parser := h.parser.leaveBlock g.parser.openClosers.length }.close
  | nested {f g h : Frame} (grown : Grows f g)
      (inside : Grows { g with parser := { g.parser with depth := g.parser.depth + 1 } } h) :
      Grows f { h with parser := h.parser.ascend }
  /-- A node that was begun and got no children is not kept. -/
  | drop {f g h : Frame} {kind : NodeKind} (grown : Grows f g)
      (empty : Grows (g.parser.start kind) h) (childless : h.children = #[]) :
      Grows f { g with parser := h.parser }
  /-- A body beyond the nesting limit that ends where it would begin. -/
  | tooDeep {f g : Frame} {limit : Nat} (grown : Grows f g)
      (enclosed : g.parser.openClosers ≠ [])
      (ends : g.current = .eof ∨ g.current.isClosingKeyword = true ∨
        g.current ∈ g.parser.openClosers) :
      Grows f { g with parser := Level.complainTooDeep limit g.parser }

end

namespace Grows

variable {f g h : Frame}

theorem trans (first : Grows f g) : ∀ {h : Frame}, Grows g h → Grows f h
  | _, .refl _ => first
  | _, .bump grown => .bump (first.trans grown)
  | _, .attach grown read => .attach (first.trans grown) read
  | _, .notice grown => .notice (first.trans grown)
  | _, .block grown closes nonempty closing inside =>
      .block (first.trans grown) closes nonempty closing inside
  | _, .nested grown inside => .nested (first.trans grown) inside
  | _, .drop grown empty childless => .drop (first.trans grown) empty childless
  | _, .tooDeep grown enclosed ends => .tooDeep (first.trans grown) enclosed ends

/-! ## What frames are made of -/

theorem child {role : Option Role} {read : Parser → Tree × Parser} (grown : Grows f g)
    (reads : Reads g.parser (read g.parser).1 (read g.parser).2) :
    Grows f (g.child role read) :=
  grown.attach reads

/-- A complaint and the placeholder that marks it. -/
theorem repair {c : Complaint} {role : Option Role} {kind : Kind} (grown : Grows f g) :
    Grows f ((g.complain c).insertMissing role kind) :=
  grown.attach .absent

/-- A complaint and the error node that marks it. -/
theorem skip {c : Complaint} (grown : Grows f g) (here : g.current ≠ .eof) :
    Grows f (g.complain c).skipAsError :=
  grown.attach (.stray here (.refl _))

theorem bumps {n : Nat} (grown : Grows f g) : Grows f (g.bumps n) := by
  induction n generalizing g with
  | zero => exact grown
  | succ n ih => exact ih grown.bump

theorem second (grown : Grows f g) : Grows f g.second.2 := by
  rw [Frame.second_eq]
  rcases g.parser.second_looked with h | h <;> rw [h]
  · exact grown
  · exact grown.notice

theorem eat {kind : Kind} (grown : Grows f g) : Grows f (g.eat kind).1 := by
  unfold Frame.eat
  split
  · exact grown.bump
  · exact grown

theorem demand {wanted : Kind} {role : Option Role} {c : Complaint} (grown : Grows f g) :
    Grows f (g.demand wanted role c).1 := by
  rcases g.demand_cases wanted role c with ⟨_, h⟩ | ⟨_, q, hq, h⟩
  · rw [h]
    exact grown.bump
  · have looked : Grows f { g with parser := q } := by
      rcases hq with rfl | rfl
      · exact grown
      · exact grown.notice
    have span : g.parser.span = q.span := by
      rcases hq with rfl | rfl
      · rfl
      · exact g.parser.span_noticeEnd.symm
    have kind : q.kind = g.current := by
      rcases hq with rfl | rfl <;> rfl
    rcases h with ⟨stray, _, h⟩ | h <;> rw [h, span]
    · rw [← kind] at stray
      exact (looked.skip (Kind.ne_eof_of_isStray stray)).bump
    · exact looked.repair

theorem expect {wanted : Kind} {role : Option Role} (grown : Grows f g) :
    Grows f (g.expect wanted role) :=
  grown.demand

theorem expectName {role : Role} (grown : Grows f g) : Grows f (g.expectName role) :=
  grown.demand

/-- A loop whose rounds may count on what the frame has grown from. -/
theorem loop_from {step : Frame → Frame × Bool} (grown : Grows f g)
    (each : ∀ h, Grows g h → Grows h (step h).1) : Grows f (g.loop step) :=
  grown.trans (Frame.loop_keeps (I := Grows g) (fun h before => before.trans (each h before))
    (.refl g))

theorem loop {step : Frame → Frame × Bool} (grown : Grows f g)
    (each : ∀ g, Grows g (step g).1) : Grows f (g.loop step) :=
  grown.loop_from fun h _ => each h

/-- A loop goes through its first round. -/
theorem loop_first {step : Frame → Frame × Bool} (each : ∀ g, Grows g (step g).1) (f : Frame) :
    Grows (step f).1 (f.loop step) := by
  unfold Frame.loop
  rw [Loop.run]
  split
  · exact (refl _).loop each
  · exact refl _

theorem commaSeparated {part : Frame → Frame} (grown : Grows f g)
    (each : ∀ g, Grows g (part g)) : Grows f (g.commaSeparated part) :=
  grown.loop fun g => (each g).eat

theorem bumpStep (role : Option Role) (passes : Kind → Bool) (g : Frame) :
    Grows g (if passes g.current then (g.bump role, true) else (g, false)).1 := by
  split
  · exact (refl g).bump
  · exact refl g

theorem bumpWhile {role : Option Role} {passes : Kind → Bool} (grown : Grows f g) :
    Grows f (g.bumpWhile role passes) :=
  grown.loop (bumpStep role passes)

theorem bumpWhile_first (role : Option Role) (passes : Kind → Bool)
    (h : passes f.current = true) : Grows (f.bump role) (f.bumpWhile role passes) := by
  have first := loop_first (bumpStep role passes) f
  rw [if_pos h] at first
  exact first

/-- A block as a frame reads it. -/
theorem enclosed {closers : List Kind} {closer : Kind} {read : Frame → Frame} (grown : Grows f g)
    (closes : g.kind.closer = some closer) (nonempty : closers ≠ [])
    (closing : ∀ k ∈ closers, k.isClosingKeyword = true)
    (inside : Grows { g with parser := g.parser.enterBlock closers }
      (read { g with parser := g.parser.enterBlock closers })) :
    Grows f (g.within closers read).close :=
  grown.block closes nonempty closing inside

/-- A frame keeps its kind. -/
theorem kind : ∀ {f g : Frame}, Grows f g → g.kind = f.kind
  | _, _, .refl _ => rfl
  | _, _, .bump grown => (Frame.kind_bump _ _).trans grown.kind
  | _, _, .attach grown _ | _, _, .notice grown | _, _, .drop grown _ _
  | _, _, .tooDeep grown _ _ => grown.kind
  | _, _, .nested grown inside => inside.kind.trans grown.kind
  | _, _, .block grown _ _ _ inside =>
      (Frame.kind_close _).trans (inside.kind.trans grown.kind)

end Grows

end JassSyntax
