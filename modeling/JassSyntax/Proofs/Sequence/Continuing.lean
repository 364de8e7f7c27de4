import JassSyntax.Proofs.Limit.Unreported

/-!
# Texts that go on

Two readings: the second text goes on where the first one ends, with a semicolon. As long as the
first reading meets no error, the second one does the same. It takes the semicolon for what the
first one takes the end of input for, except between statements, where the semicolon is one more
statement; and no statement of a block stands in front of the end of input without an error.
-/

namespace JassSyntax

/-- The parser has met no error, and not the end of input inside of a block, which would be one. -/
structure Parser.Unbroken (p : Parser) : Prop where
  clean : p.errors = #[]
  outside : p.ahead.toList = [] → p.openClosers = []

/-- The second parser has the items `stop :: rest` behind those of the first, and all else is the
same. It has not noticed the end of input. -/
structure Parser.Extends (stop : Item) (rest : List Item) (p q : Parser) : Prop where
  ahead : q.ahead.toList = p.ahead.toList ++ stop :: rest
  noticed : q.endNoticedAt = none
  pending : q.pending = p.pending
  errors : q.errors = p.errors
  openClosers : q.openClosers = p.openClosers
  lastEnd : q.lastEnd = p.lastEnd
  depth : q.depth = p.depth

/-- The nodes under construction are the same, and their parsers but for what is ahead. -/
structure Frame.Extends (stop : Item) (rest : List Item) (f g : Frame) : Prop where
  kind : g.kind = f.kind
  children : g.children = f.children
  parser : f.parser.Extends stop rest g.parser

variable {stop : Item} {rest : List Item} {p q : Parser} {f g : Frame}

namespace Parser

theorem Unbroken.before (unbroken : q.Unbroken) (later : p.Later q) : p.Unbroken where
  clean := later.clean unbroken.clean
  outside none := by
    have suffix := later.ahead
    rw [none, List.suffix_nil] at suffix
    rw [← later.openClosers]
    exact unbroken.outside suffix

theorem Unbroken.shallow (unbroken : p.Unbroken) : p.Shallow := by
  intro e mem
  rw [unbroken.clean] at mem
  cases mem

namespace Extends

theorem head (h : p.Extends stop rest q) {item : Item} (here : p.ahead.head? = some item) :
    q.ahead.head? = some item := by
  rw [Counted.head?, h.ahead, List.head?_append, show p.ahead.toList.head? = _ from here]
  rfl

/-- Behind an item there is another one, the first of what follows at least. -/
theorem tail (h : p.Extends stop rest q) {item : Item} (here : p.ahead.head? = some item) :
    q.ahead.tail.toList = p.ahead.tail.toList ++ stop :: rest := by
  obtain ⟨items, ahead⟩ := List.head?_eq_some_iff.mp here
  rw [Counted.toList_tail, Counted.toList_tail, h.ahead, ahead]
  rfl

theorem kind_of_head (h : p.Extends stop rest q) {item : Item}
    (here : p.ahead.head? = some item) : q.kind = p.kind := by
  rw [Parser.kind, Parser.kind, here, h.head here]

theorem kind_of_nil (h : p.Extends stop rest q) (ended : p.ahead.toList = []) :
    q.kind = stop.token.kind := by
  rw [Parser.kind, Counted.head?, h.ahead, ended]
  rfl

theorem second_cases (h : p.Extends stop rest q) (here : p.kind ≠ .eof) :
    q.second.2 = q ∧
      (q.second.1 = p.second.1 ∨ p.second.1 = .eof ∧ q.second.1 = stop.token.kind) := by
  obtain ⟨item, head, _⟩ := head_of_kind rfl here
  have tail := h.tail head
  unfold Parser.second
  rw [Counted.head?, Counted.head?, tail]
  cases p.ahead.tail.toList with
  | nil => exact ⟨rfl, .inr ⟨rfl, rfl⟩⟩
  | cons next items => exact ⟨rfl, .inl rfl⟩

/-- The second text goes on with a semicolon, which decides as the end of input does. -/
theorem matched (h : p.Extends stop rest q) (unbroken : p.Unbroken)
    (semicolon : stop.token.kind = .semicolon) : p.Matches (rest.length + 1) q where
  kind := by
    cases head : p.ahead.head? with
    | some item => exact .inl (h.kind_of_head head)
    | none =>
        have ended : p.ahead.toList = [] := List.head?_eq_none_iff.mp head
        exact .inr ⟨ended, (h.kind_of_nil ended).trans semicolon⟩
  second here := by
    rw [← semicolon]
    exact (h.second_cases here).2
  openClosers := h.openClosers
  enclosed inside := by
    cases head : p.ahead.head? with
    | some item => exact h.kind_of_head head
    | none => exact absurd (unbroken.outside (List.head?_eq_none_iff.mp head)) inside
  remaining := by
    rw [remaining, remaining, Counted.length_eq, Counted.length_eq, h.ahead, List.length_append]
    rfl

theorem second (h : p.Extends stop rest q) (here : p.kind ≠ .eof) :
    p.second.2.Extends stop rest q.second.2 := by
  rw [(h.second_cases here).1]
  rcases p.second_looked with looked | looked <;> rw [looked]
  · exact h
  · exact { h with }

theorem takeLeaf (h : p.Extends stop rest q) {item : Item} (here : p.ahead.head? = some item) :
    q.takeLeaf.1 = p.takeLeaf.1 ∧ p.takeLeaf.2.Extends stop rest q.takeLeaf.2 := by
  unfold Parser.takeLeaf
  rw [here, h.head here]
  exact ⟨rfl, { h with
    ahead := h.tail here
    pending := congrArg (· ++ item.comments) h.pending
    lastEnd := rfl }⟩

theorem enterBlock (h : p.Extends stop rest q) (closers : List Kind) :
    (p.enterBlock closers).Extends stop rest (q.enterBlock closers) :=
  { h with openClosers := congrArg (· ++ closers) h.openClosers }

theorem leaveBlock (h : p.Extends stop rest q) (mark : Nat) :
    (p.leaveBlock mark).Extends stop rest (q.leaveBlock mark) :=
  { h with openClosers := congrArg (List.take mark) h.openClosers }

theorem deepen (h : p.Extends stop rest q) :
    { p with depth := p.depth + 1 }.Extends stop rest { q with depth := q.depth + 1 } :=
  { h with depth := congrArg (· + 1) h.depth }

theorem ascend (h : p.Extends stop rest q) : p.ascend.Extends stop rest q.ascend :=
  { h with depth := congrArg (· - 1) h.depth }

end Extends

end Parser

namespace Frame

theorem Extends.flush (h : f.Extends stop rest g) : f.flush.Extends stop rest g.flush where
  kind := h.kind
  children := by
    show g.children ++ g.parser.pending = f.children ++ f.parser.pending
    rw [h.children, h.parser.pending]
  parser := { h.parser with pending := rfl }

theorem Extends.attach (h : f.Extends stop rest g) (role : Option Role) (t : Tree) :
    (f.attach role t).Extends stop rest (g.attach role t) :=
  { h.flush with children := congrArg (Array.push · (t.withRole role)) h.flush.children }

theorem Extends.bump (h : f.Extends stop rest g) (here : f.current ≠ .eof) (role : Option Role) :
    (f.bump role).Extends stop rest (g.bump role) := by
  obtain ⟨item, head, _⟩ := Parser.head_of_kind rfl here
  rw [bump_eq head, bump_eq (h.parser.head head)]
  refine ⟨h.kind, ?_, { h.parser with
    ahead := h.parser.tail head
    pending := rfl
    lastEnd := rfl }⟩
  show ((g.children ++ g.parser.pending ++ item.comments).push _) = _
  rw [h.children, h.parser.pending]

/-- Behind a complaint the reading is broken. -/
theorem not_unbroken_skipAsError (c : Complaint) : ¬(f.complain c).skipAsError.parser.Unbroken := by
  intro unbroken
  have errors := errors_skipAsError (f.complain c)
  rw [unbroken.clean] at errors
  exact Parser.errors_complainAt _ _ _ errors.symm

theorem not_unbroken_insertMissing (c : Complaint) (role : Option Role) (k : Kind) :
    ¬((f.complain c).insertMissing role k).parser.Unbroken :=
  fun unbroken => Parser.errors_complainAt _ _ _ unbroken.clean

/-- A token that is insisted on stands there, or else the reading is broken. -/
theorem current_of_demand_unbroken {wanted : Kind} {role : Option Role} {c : Complaint}
    (unbroken : (f.demand wanted role c).1.parser.Unbroken) : f.current = wanted := by
  rcases f.demand_cases wanted role c with ⟨here, _⟩ | ⟨_, q, _, ⟨_, _, e⟩ | e⟩
  · exact here
  · rw [e] at unbroken
    have skipped := errors_bump { f with parser := q.complainAt f.parser.span c }.skipAsError role
    rw [unbroken.clean, errors_skipAsError] at skipped
    exact absurd skipped.symm (Parser.errors_complainAt _ _ _)
  · rw [e] at unbroken
    exact absurd unbroken.clean (Parser.errors_complainAt _ _ _)

/-- A construct that is closed without a complaint has its closer. -/
theorem current_of_close_unbroken {closer : Kind} (closes : f.kind.closer = some closer)
    (unbroken : f.close.parser.Unbroken) :
    f.current = closer ∧ f.close = f.bump (some .closing) := by
  rcases close_cases closes with closed | ⟨_, span, e⟩
  · exact closed
  · rw [e] at unbroken
    exact absurd unbroken.clean (Parser.errors_complainAt _ _ _)

/-- A block and its closer, if both are there. -/
theorem Extends.left {h h' : Frame} {closer : Kind} (outside : f.Extends stop rest g)
    (inside : h.Extends stop rest h') (closes : h.kind.closer = some closer)
    (unbroken : (f.left h).parser.Unbroken) : (f.left h).Extends stop rest (g.left h') := by
  have keyword := NodeKind.isClosingKeyword_of_closer closes
  have other : closer ≠ .eof := by
    rintro rfl
    cases keyword
  let left : Frame := { h with parser := h.parser.leaveBlock f.parser.openClosers.length }
  obtain ⟨here, e⟩ := current_of_close_unbroken (f := left) closes unbroken
  have there : h'.parser.kind = closer := by
    obtain ⟨item, head, _⟩ := Parser.head_of_kind (p := h.parser) here other
    exact (inside.parser.kind_of_head head).trans here
  have mark : g.parser.openClosers.length = f.parser.openClosers.length :=
    congrArg List.length outside.parser.openClosers
  have left' : Extends stop rest left
      { h' with parser := h'.parser.leaveBlock f.parser.openClosers.length } :=
    ⟨inside.kind, inside.children, inside.parser.leaveBlock _⟩
  have closed : (g.left h') =
      { h' with parser := h'.parser.leaveBlock f.parser.openClosers.length }.bump
        (some .closing) := by
    unfold Frame.left
    rw [mark]
    rcases close_cases
      (f := { h' with parser := h'.parser.leaveBlock f.parser.openClosers.length })
      (inside.kind ▸ closes) with ⟨_, e'⟩ | ⟨absent, _⟩
    · exact e'
    · exact absurd there absent
  rw [closed, show f.left h = left.close from rfl, e]
  exact left'.bump (fun eof => other (here.symm.trans eof)) _

end Frame

/-- Reading on as the first reading does, as long as that is unbroken. -/
def onward (stop : Item) (rest : List Item) (semicolon : stop.token.kind = .semicolon) :
    Simulation where
  Parsers p q := p.Unbroken ∧ p.Extends stop rest q
  Frames f g := f.parser.Unbroken → f.Extends stop rest g
  Results _ e r := e.2.Unbroken → r.1 = e.1 ∧ e.2.Extends stop rest r.2
  excess := rest.length + 1
  agrees h := h.2.matched h.1 semicolon
  counting h grown more unbroken := by
    have before := unbroken.before grown.later
    exact more ((h before).parser.matched before semicolon) (h before).kind unbroken
  covering h covers more unbroken := by
    have before := unbroken.before covers.later
    exact more ((h before).2.matched before semicolon) unbroken
  start k h _ := ⟨rfl, rfl, h.2⟩
  look {p _} h here := by
    refine ⟨?_, h.2.second here⟩
    rcases p.second_looked with looked | looked <;> rw [looked]
    · exact h.1
    · exact ⟨h.1.clean, h.1.outside⟩
  second h here unbroken := by
    have before := unbroken.before ((Grows.refl _).second).later
    exact ⟨(h before).kind, (h before).children, (h before).parser.second here⟩
  bump {f _} role h here unbroken := by
    have grown : Grows f (f.bump role) := (Grows.refl f).bump
    exact (h (unbroken.before grown.later)).bump here role
  child {f g role read read'} h _ reads each unbroken := by
    have grown : Grows f (f.child role read) := (Grows.refl f).child reads
    have before := unbroken.before grown.later
    have outside := h before
    obtain ⟨tree, parser⟩ := each ⟨before, outside.parser⟩ ⟨unbroken.clean, unbroken.outside⟩
    unfold Frame.child
    dsimp only
    rw [tree]
    exact Frame.Extends.attach (f := { f with parser := (read f.parser).2 })
      (g := { g with parser := (read' g.parser).2 }) ⟨outside.kind, outside.children, parser⟩ role _
  item {f g read read'} h _ comma reads each unbroken := by
    have here : f.current ≠ .eof := by rw [comma]; decide
    have grown : Grows f.bump (f.bump.child none read) := (Grows.refl f.bump).child reads
    have before := unbroken.before grown.later
    have outside := (h (before.before (Grows.refl f).bump.later)).bump here none
    obtain ⟨tree, parser⟩ := each ⟨before, outside.parser⟩ ⟨unbroken.clean, unbroken.outside⟩
    unfold Frame.child
    dsimp only
    rw [tree]
    exact Frame.Extends.attach (f := { f.bump with parser := (read f.bump.parser).2 })
      (g := { g.bump with parser := (read' g.bump.parser).2 })
      ⟨outside.kind, outside.children, parser⟩ none _
  wrap {e r k role} h _ unbroken := by
    obtain ⟨tree, parser⟩ := h ⟨unbroken.clean, unbroken.outside⟩
    rw [tree]
    exact Frame.Extends.attach (f := e.2.start k) (g := r.2.start k) ⟨rfl, rfl, parser⟩ role e.1
  finish {f g} h unbroken := by
    have outside := h unbroken
    refine ⟨?_, outside.parser⟩
    show Tree.ofChildren g.kind g.parser.lastEnd g.children.toList = _
    rw [outside.kind, outside.children, outside.parser.lastEnd]
    rfl
  leaf h here _ := h.2.takeLeaf here
  block {f g h h' f' g' closers closer} outside closes nonempty closing inside each grown more
      unbroken := by
    have closed : Grows f (f.left h) := .block (.refl f) closes nonempty closing inside
    have around := outside (unbroken.before (closed.trans grown).later)
    have left := unbroken.before grown.later
    have closes' : h.kind.closer = some closer := (show h.kind = f.kind from inside.kind) ▸ closes
    -- The closer is there, so the block has not come to the end of input.
    have filled : h.parser.Unbroken := by
      obtain ⟨here, _⟩ := Frame.current_of_close_unbroken
        (f := { h with parser := h.parser.leaveBlock f.parser.openClosers.length }) closes' left
      have later : (h.parser.leaveBlock f.parser.openClosers.length).Later (f.left h).parser :=
        Parser.Later.close (f := { h with parser := h.parser.leaveBlock _ }) (.refl _) closes'
      refine ⟨later.clean left.clean, fun none => ?_⟩
      have keyword := NodeKind.isClosingKeyword_of_closer closes'
      rw [← (show h.parser.kind = closer from here), Parser.kind_of_ahead_nil none] at keyword
      cases keyword
    have entered : (f.entered closers).Extends stop rest (g.entered closers) :=
      ⟨around.kind, around.children, around.parser.enterBlock closers⟩
    have block := each (fun _ => entered) filled
    exact more (block.parser.matched filled semicolon) (fun left => around.left block closes' left)
      unbroken
  skip c _ _ unbroken := absurd unbroken (Frame.not_unbroken_skipAsError c)
  repair c role k _ unbroken := absurd unbroken (Frame.not_unbroken_insertMissing c role k)
  absent c k _ unbroken := absurd unbroken.clean (Parser.errors_complainAt _ _ _)
  stray {p q} c _ _ unbroken := by
    have errors := Frame.errors_bump ((p.complain c).start .error) none
    rw [unbroken.clean] at errors
    exact absurd errors.symm (Parser.errors_complainAt _ _ _)
  unended {f g} _ none unbroken := by
    have here : f.current = .rBrace := Frame.current_of_demand_unbroken unbroken
    rw [Frame.current, Parser.kind_of_ahead_nil none] at here
    cases here

/-! ## Levels -/

namespace Level

variable {limit : Nat} {u : Level} {semicolon : stop.token.kind = .semicolon}

theorem above_onward (alike : u.Alike (onward stop rest semicolon) u) :
    (u.above limit).Alike (onward stop rest semicolon) (u.above limit) where
  traced := above_traced limit alike.traced
  enclosed {power p q} loose h unbroken := by
    -- Nothing has been cut off, so the limit leaves room, for both alike.
    have room := lt_of_binding_shallow unbroken.shallow
    rw [above_binding_of_lt u room] at unbroken ⊢
    rw [above_binding_of_lt u (h.2.depth ▸ room)]
    have operands : u.OperandsAlike (onward stop rest semicolon) u :=
      ⟨fun loose h => alike.enclosed loose h, fun h => alike.enclosed (by decide) h⟩
    have read := Expression.binding_alike alike operands power
      (p := { p with depth := p.depth + 1 }) (q := { q with depth := q.depth + 1 })
      ⟨⟨h.1.clean, h.1.outside⟩, h.2.deepen⟩ ⟨unbroken.clean, unbroken.outside⟩
    exact ⟨read.1, read.2.ascend⟩
  body {terminators f g} terminating enclosed h unbroken := by
    have grown := (above_traced limit alike.traced).body terminators f terminating enclosed
    have before := unbroken.before grown.later
    have outside := h before
    have room := lt_of_body_shallow unbroken.shallow
    rw [above_body_of_lt alike.traced room] at unbroken ⊢
    rw [above_body_of_lt alike.traced (outside.parser.depth ▸ room)]
    have same := (outside.parser.matched before semicolon).enclosed enclosed
    have ends : EndsBody terminators g ↔ EndsBody terminators f := by
      rw [EndsBody, EndsBody, show g.current = f.current from same, outside.parser.openClosers]
    unfold bodyAround at unbroken ⊢
    by_cases here : EndsBody terminators f
    · rw [if_pos here, if_pos (ends.mpr here)]
      exact outside
    · rw [if_neg here] at unbroken
      rw [if_neg here, if_neg (mt ends.mp here), outside.kind]
      have reads := deeper_reads (Statement.block_reads alike.traced f.kind terminators) f.parser
      refine (onward stop rest semicolon).childAt .body (fun _ => outside) rfl (by decide) reads
        (fun _ unbroken => ?_) unbroken
      have read := Statement.block_alike alike f.kind terminators
        (p := { f.parser with depth := f.parser.depth + 1 })
        (q := { g.parser with depth := g.parser.depth + 1 }) enclosed
        ⟨⟨before.clean, before.outside⟩, outside.parser.deepen⟩
        ⟨unbroken.clean, unbroken.outside⟩
      exact ⟨read.1, read.2.ascend⟩

theorem stack_onward (semicolon : stop.token.kind = .semicolon) (limit room : Nat) :
    (stack limit room).Alike (onward stop rest semicolon) (stack limit room) := by
  induction room with
  | zero =>
      exact ⟨cutOff_traced limit,
        fun _ _ unbroken => absurd unbroken.shallow (cutOff_binding_not_shallow limit _ _),
        fun _ _ _ unbroken => absurd unbroken.shallow (cutOff_body_not_shallow limit _ _)⟩
  | succ room ih => exact above_onward ih

end Level

end JassSyntax
