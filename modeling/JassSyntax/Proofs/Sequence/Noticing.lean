import JassSyntax.Proofs.Simulation.Levels

/-!
# When the end of input is noticed

A stream with a token for the end of input has its end there, whenever the end is noticed. So what
a parser remembers of that does not matter: two parsers that are the same otherwise read the same.
-/

namespace JassSyntax

/-- The parser, as if it had noticed the end of input at the start of the text. -/
def Parser.noticing (p : Parser) : Parser := { p with endNoticedAt := some .origin }

/-- The node under construction, as if the end of input had been noticed at the start. -/
def Frame.noticing (f : Frame) : Frame := { f with parser := f.parser.noticing }

/-- The stream has a token for the end of input, and what was noticed of it is the only
difference. -/
structure Parser.Resembles (p q : Parser) : Prop where
  ended : p.eof.isSome = true
  same : q.noticing = p.noticing

/-- The parsers differ in what was noticed of the end of input at most, the nodes do not. -/
structure Frame.Resembles (f g : Frame) : Prop where
  ended : f.parser.eof.isSome = true
  same : g.noticing = f.noticing

/-- The same tree was read, and the parsers differ in what was noticed of the end at most. -/
structure Tree.ResemblesWith (e r : Tree × Parser) : Prop where
  tree : r.1 = e.1
  parser : e.2.Resembles r.2

variable {p q : Parser} {f g : Frame}

/-! ## Parsers -/

namespace Parser

theorem noticing_second (p : Parser) : p.second.2.noticing = p.noticing := by
  rcases p.second_looked with looked | looked <;> rw [looked]
  rfl

theorem span_noticing (ended : p.eof.isSome = true) : p.noticing.span = p.span := by
  obtain ⟨t, eof⟩ := Option.isSome_iff_exists.mp ended
  unfold span endSpan
  rw [show p.noticing.eof = some t from eof, eof]
  rfl

theorem noticing_complain (ended : p.eof.isSome = true) (c : Complaint) :
    (p.complain c).noticing = p.noticing.complain c := by
  unfold complain
  rw [span_noticing ended]
  rfl

theorem noticing_complainTooDeep (ended : p.eof.isSome = true) (limit : Nat) :
    (Level.complainTooDeep limit p).noticing = Level.complainTooDeep limit p.noticing := by
  unfold Level.complainTooDeep
  rw [show p.noticing.errors = p.errors from rfl]
  split
  · rfl
  · exact noticing_complain ended _

theorem noticing_takeLeaf (p : Parser) :
    p.noticing.takeLeaf = (p.takeLeaf.1, p.takeLeaf.2.noticing) := by
  unfold takeLeaf
  rw [show p.noticing.ahead = p.ahead from rfl]
  cases p.ahead.head? <;> rfl

/-- Parsers with an end that are the same for every way to see it. -/
theorem Resembles.of_eq {p' q' : Parser} (h : p.Resembles q) (eof : p'.eof = p.eof)
    (same : q.noticing = p.noticing → q'.noticing = p'.noticing) : p'.Resembles q' :=
  ⟨eof ▸ h.ended, same h.same⟩

namespace Resembles

theorem ended_right (h : p.Resembles q) : q.eof.isSome = true := by
  have eof : q.noticing.eof = p.noticing.eof := congrArg Parser.eof h.same
  exact (congrArg Option.isSome eof).trans h.ended

theorem ahead (h : p.Resembles q) : q.ahead = p.ahead :=
  show q.noticing.ahead = p.noticing.ahead from congrArg Parser.ahead h.same

theorem openClosers (h : p.Resembles q) : q.openClosers = p.openClosers :=
  show q.noticing.openClosers = p.noticing.openClosers from congrArg Parser.openClosers h.same

theorem depth (h : p.Resembles q) : q.depth = p.depth :=
  show q.noticing.depth = p.noticing.depth from congrArg Parser.depth h.same

theorem agrees (h : p.Resembles q) : p.Agrees q where
  kind := by rw [kind, kind, h.ahead]
  second := by
    unfold Parser.second
    rw [h.ahead]
    cases p.ahead.tail.head? <;> rfl
  openClosers := h.openClosers
  remaining := by rw [remaining, remaining, h.ahead]

theorem missing (h : p.Resembles q) (k : Kind) : q.missing k = p.missing k :=
  show q.noticing.missing k = p.noticing.missing k by rw [h.same]

theorem complain (h : p.Resembles q) (c : Complaint) : (p.complain c).Resembles (q.complain c) :=
  h.of_eq rfl fun same => by
    rw [noticing_complain h.ended, noticing_complain h.ended_right, same]

theorem complainTooDeep (h : p.Resembles q) (limit : Nat) :
    (Level.complainTooDeep limit p).Resembles (Level.complainTooDeep limit q) :=
  h.of_eq (p.later_complainTooDeep limit).eof fun same => by
    rw [noticing_complainTooDeep h.ended, noticing_complainTooDeep h.ended_right, same]

theorem second (h : p.Resembles q) : p.second.2.Resembles q.second.2 := by
  refine h.of_eq ?_ fun same => by rw [noticing_second, noticing_second, same]
  rcases p.second_looked with looked | looked <;> rw [looked]
  rfl

theorem withDepth (h : p.Resembles q) (n : Nat) :
    { p with depth := n }.Resembles { q with depth := n } :=
  h.of_eq rfl fun same =>
    show { q.noticing with depth := n } = { p.noticing with depth := n } by rw [same]

theorem ascend (h : p.Resembles q) : p.ascend.Resembles q.ascend :=
  h.of_eq rfl fun same => show q.noticing.ascend = p.noticing.ascend by rw [same]

theorem enterBlock (h : p.Resembles q) (closers : List Kind) :
    (p.enterBlock closers).Resembles (q.enterBlock closers) :=
  h.of_eq rfl fun same =>
    show q.noticing.enterBlock closers = p.noticing.enterBlock closers by rw [same]

theorem leaveBlock (h : p.Resembles q) (mark : Nat) :
    (p.leaveBlock mark).Resembles (q.leaveBlock mark) :=
  h.of_eq rfl fun same =>
    show q.noticing.leaveBlock mark = p.noticing.leaveBlock mark by rw [same]

theorem takeLeaf (h : p.Resembles q) : Tree.ResemblesWith p.takeLeaf q.takeLeaf := by
  have same : q.noticing.takeLeaf = p.noticing.takeLeaf := by rw [h.same]
  rw [noticing_takeLeaf, noticing_takeLeaf] at same
  obtain ⟨tree, parser⟩ := Prod.mk.inj same
  refine ⟨tree, h.of_eq ?_ fun _ => parser⟩
  unfold Parser.takeLeaf
  cases p.ahead.head? <;> rfl

end Resembles

end Parser

/-! ## Frames -/

namespace Frame

theorem noticing_bump (f : Frame) (role : Option Role) :
    (f.bump role).noticing = f.noticing.bump role := by
  cases head : f.parser.ahead.head? with
  | none => rw [bump_of_none head, bump_of_none (f := f.noticing) head]; rfl
  | some item => rw [bump_eq head, bump_eq (f := f.noticing) head]; rfl

theorem noticing_close (f : Frame) : f.close.noticing = f.noticing.close := by
  unfold close
  rw [show f.noticing.kind = f.kind from rfl]
  cases f.kind.closer with
  | none => rfl
  | some closer =>
      rw [show f.noticing.current = f.current from rfl]
      dsimp only
      split
      · exact f.noticing_bump _
      · rfl

namespace Resembles

theorem kind (h : f.Resembles g) : g.kind = f.kind :=
  show g.noticing.kind = f.noticing.kind from congrArg Frame.kind h.same

theorem parser (h : f.Resembles g) : f.parser.Resembles g.parser :=
  ⟨h.ended, show g.noticing.parser = f.noticing.parser from congrArg Frame.parser h.same⟩

theorem start (h : p.Resembles q) (k : NodeKind) : (p.start k).Resembles (q.start k) := by
  have same : q.noticing.start k = p.noticing.start k := by rw [h.same]
  unfold Parser.start at same
  rw [Parser.span_noticing h.ended, Parser.span_noticing h.ended_right] at same
  exact ⟨h.ended, same⟩

theorem withParser (h : f.Resembles g) (parsers : p.Resembles q) :
    { f with parser := p }.Resembles { g with parser := q } := by
  have same :
      { g.noticing with parser := q.noticing } = { f.noticing with parser := p.noticing } := by
    rw [h.same, parsers.same]
  exact ⟨parsers.ended, same⟩

theorem attach (h : f.Resembles g) (role : Option Role) (t : Tree) :
    (f.attach role t).Resembles (g.attach role t) :=
  ⟨h.ended, show g.noticing.attach role t = f.noticing.attach role t by rw [h.same]⟩

theorem bump (h : f.Resembles g) (role : Option Role) :
    (f.bump role).Resembles (g.bump role) := by
  have eof : (f.bump role).parser.eof = f.parser.eof := (Parser.Later.bump (.refl _)).eof
  exact ⟨eof ▸ h.ended, by rw [noticing_bump, noticing_bump, h.same]⟩

theorem bumps (h : f.Resembles g) (n : Nat) : (f.bumps n).Resembles (g.bumps n) := by
  induction n generalizing f g with
  | zero => exact h
  | succ n ih => exact ih (h.bump none)

theorem finish (h : f.Resembles g) : Tree.ResemblesWith f.finish g.finish :=
  ⟨show g.noticing.finish.1 = f.noticing.finish.1 by rw [h.same], h.parser⟩

theorem child (h : f.Resembles g) (role : Option Role) {read read' : Parser → Tree × Parser}
    (each : Tree.ResemblesWith (read f.parser) (read' g.parser)) :
    (f.child role read).Resembles (g.child role read') := by
  unfold Frame.child
  dsimp only
  rw [each.tree]
  exact (h.withParser each.parser).attach role _

theorem complain (h : f.Resembles g) (c : Complaint) : (f.complain c).Resembles (g.complain c) :=
  h.withParser (h.parser.complain c)

theorem skipAsError (h : f.Resembles g) : f.skipAsError.Resembles g.skipAsError :=
  h.child none ((start h.parser .error).bump none).finish

theorem insertMissing (h : f.Resembles g) (role : Option Role) (k : Kind) :
    (f.insertMissing role k).Resembles (g.insertMissing role k) := by
  unfold Frame.insertMissing
  rw [h.parser.missing]
  exact h.attach role _

theorem close (h : f.Resembles g) : f.close.Resembles g.close := by
  refine ⟨?_, by rw [noticing_close, noticing_close, h.same]⟩
  cases closes : f.kind.closer with
  | none =>
      unfold Frame.close
      rw [closes]
      exact h.ended
  | some closer =>
      rw [(Parser.Later.close (.refl _) closes).eof]
      exact h.ended

theorem left {h h' : Frame} (outside : f.Resembles g) (inside : h.Resembles h') :
    (f.left h).Resembles (g.left h') := by
  unfold Frame.left
  rw [outside.parser.openClosers]
  exact (inside.withParser (inside.parser.leaveBlock _)).close

end Resembles

end Frame

/-- Reading the same, whatever was noticed of the end of input. -/
def unnoticed : Simulation where
  Parsers := Parser.Resembles
  Frames := Frame.Resembles
  Results _ := Tree.ResemblesWith
  excess := 0
  agrees h := h.agrees.matched
  counting h _ more := more h.parser.agrees.matched h.kind
  covering h _ more := more h.parser.agrees.matched
  start k h := .start h k
  look h _ := h.second
  second h _ := h.withParser h.parser.second
  bump role h _ := h.bump role
  child h _ _ each := h.child _ (each h.parser)
  item h _ _ _ each := (h.bump none).child none (each (h.bump none).parser)
  wrap {e r k role} h _ := by
    rw [h.tree]
    exact (Frame.Resembles.start h.parser k).attach role _
  finish h := h.finish
  leaf h _ := h.takeLeaf
  block outside _ _ _ _ each _ more := by
    have inside := each (outside.withParser (outside.parser.enterBlock _))
    exact more inside.parser.agrees.matched (outside.left inside)
  skip c h _ := (h.complain c).skipAsError
  repair c role k h := (h.complain c).insertMissing role k
  absent c k h := ⟨h.missing k, h.complain c⟩
  stray c h _ := (Frame.Resembles.start (h.complain c) .error).bump none
  unended more := absurd more (Nat.lt_irrefl 0)

theorem unnoticed_unconditional : unnoticed.Unconditional where
  kinds h := by rw [h.ahead]
  depth h := h.depth
  withDepth n h := h.withDepth n
  complainTooDeep limit h := h.complainTooDeep limit
  missing k h := ⟨h.missing k, h⟩
  parser h := h.parser
  withParser h same := h.withParser same
  kind h := h.kind
  bumps n h := h.bumps n
  around {e r} k h := by
    rw [h.tree]
    exact (Frame.Resembles.start h.parser k).attach none _
  anywhere h := h
  ascend h := ⟨h.tree, h.parser.ascend⟩

end JassSyntax
