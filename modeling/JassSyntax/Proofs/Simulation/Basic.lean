import JassSyntax.Proofs.Reading.Constructs
import Mathlib.Logic.Relation

/-!
# Two readings side by side

A `Simulation` relates the parsers, the frames and the results of two readings. Both decide by the
same kinds, so what is related stays related along the moves that both make. A relation may hold
only for a first reading that will turn out well. Then it tells nothing by itself, and whoever
counts on it has to say what the first reading grows into. The second text may also go on behind
the first one, after a semicolon, which almost no decision tells from the end of input.
-/

namespace JassSyntax

/-- How a child is read. -/
inductive Place where
  /-- By the level that reads its parent. -/
  | beside
  /-- By the level inside, between tokens of its parent. -/
  | enclosed
  /-- By the level inside, as an operand of an operator. -/
  | operand
  /-- By the level inside, as an item of a list, unless it is the first one: that has been read like
  the list. -/
  | item
  /-- By the level inside, as a body. -/
  | body
  deriving DecidableEq

namespace NodeKind

/-- How a child in a role is read. -/
def place (k : NodeKind) : Option Role → Place
  | some .value | some .condition | some .index | some .key => .enclosed
  | some .right => .operand
  | some .operand => if k = .unaryExpression then .operand else .beside
  | some .body => .body
  | none =>
    match k with
    | .arguments | .expressionStatement => .enclosed
    | .expressionList => .item
    | _ => .beside
  | _ => .beside

/-- The items of a list have no roles. -/
theorem place_some_ne_item (k : NodeKind) (r : Role) : k.place (some r) ≠ .item := by
  cases r <;> simp only [place, ne_eq, reduceCtorEq, not_false_eq_true]
  split <;> simp

end NodeKind

namespace Parser

/-- All that the grammar decides by is the same. -/
structure Agrees (p q : Parser) : Prop where
  kind : q.kind = p.kind
  second : q.second.1 = p.second.1
  openClosers : q.openClosers = p.openClosers
  remaining : q.remaining = p.remaining

/-- The grammar decides the same for the two, where it does not ask for the end of input or for a
semicolon. The second has `excess` items more to take, of which the first is a semicolon. -/
structure Matches (excess : Nat) (p q : Parser) : Prop where
  kind : q.kind = p.kind ∨ p.ahead.toList = [] ∧ q.kind = .semicolon
  second : p.kind ≠ .eof → q.second.1 = p.second.1 ∨ p.second.1 = .eof ∧ q.second.1 = .semicolon
  openClosers : q.openClosers = p.openClosers
  /-- The first text does not end inside of a block. -/
  enclosed : p.openClosers ≠ [] → q.kind = p.kind
  remaining : q.remaining = p.remaining + excess

variable {p q : Parser} {excess : Nat}

theorem kind_of_ahead_nil (none : p.ahead.toList = []) : p.kind = .eof := by
  rw [kind, Counted.head?, none]
  rfl

theorem Agrees.refl (p : Parser) : p.Agrees p := ⟨rfl, rfl, rfl, rfl⟩

theorem Agrees.matched (same : p.Agrees q) : p.Matches 0 q where
  kind := .inl same.kind
  second _ := .inl same.second
  openClosers := same.openClosers
  enclosed _ := same.kind
  remaining := same.remaining

namespace Matches

theorem kind_eq (same : p.Matches excess q) (going : excess = 0 ∨ p.ahead.toList ≠ []) :
    q.kind = p.kind := by
  rcases same.kind with kind | ⟨none, semicolon⟩
  · exact kind
  rcases going with rfl | some
  · have length : q.remaining = p.remaining := same.remaining
    rw [Parser.remaining, Parser.remaining, Counted.length_eq, Counted.length_eq, none] at length
    rw [kind_of_ahead_nil none, kind_of_ahead_nil (List.eq_nil_of_length_eq_zero length)]
  · exact absurd none some

theorem kind_of_ne_eof (same : p.Matches excess q) (here : p.kind ≠ .eof) : q.kind = p.kind :=
  same.kind_eq (.inr fun none => here (kind_of_ahead_nil none))

/-- What does not tell a semicolon from the end of input is the same. -/
theorem blind {α : Type} {c : Kind → α} (same : p.Matches excess q)
    (blind : c .semicolon = c .eof) : c q.kind = c p.kind := by
  rcases same.kind with kind | ⟨none, semicolon⟩
  · rw [kind]
  · rw [semicolon, kind_of_ahead_nil none, blind]

theorem second_blind {α : Type} {c : Kind → α} (same : p.Matches excess q) (here : p.kind ≠ .eof)
    (blind : c .semicolon = c .eof) : c q.second.1 = c p.second.1 := by
  rcases same.second here with second | ⟨eof, semicolon⟩
  · rw [second]
  · rw [eof, semicolon, blind]

end Matches

end Parser

/-- Kinds that are told from the end of input and from a semicolon alike. -/
def Kind.IsPlain (k : Kind) : Prop := k ≠ .eof ∧ k ≠ .semicolon

instance (k : Kind) : Decidable k.IsPlain := inferInstanceAs (Decidable (_ ∧ _))

theorem Kind.IsPlain.blind {k : Kind} (plain : k.IsPlain) :
    (Kind.semicolon = k) = (Kind.eof = k) :=
  propext ⟨fun h => absurd h.symm plain.2, fun h => absurd h.symm plain.1⟩

namespace Parser.Matches

variable {p q : Parser} {excess : Nat} {k : Kind}

theorem is (same : p.Matches excess q) (plain : k.IsPlain) : (q.kind = k) = (p.kind = k) :=
  same.blind (c := (· = k)) plain.blind

theorem second_is (same : p.Matches excess q) (here : p.kind ≠ .eof) (plain : k.IsPlain) :
    (q.second.1 = k) = (p.second.1 = k) :=
  same.second_blind (c := (· = k)) here plain.blind

end Parser.Matches

/-- The second result begins with the first one, at whatever depth. -/
def Covers (e r : Tree × Parser) : Prop := Relation.ReflTransGen Wraps e r

/-- The frame in front of what is read while `closers` end bodies. -/
def Frame.entered (f : Frame) (closers : List Kind) : Frame :=
  { f with parser := f.parser.enterBlock closers }

/-- The frame `h` behind a block of `f`, once it is closed. -/
def Frame.left (f h : Frame) : Frame :=
  { h with parser := h.parser.leaveBlock f.parser.openClosers.length }.close

/-- What relates two readings. The first one leaves a trace. -/
structure Simulation where
  Parsers : Parser → Parser → Prop
  Frames : Frame → Frame → Prop
  Results : Place → Tree × Parser → Tree × Parser → Prop
  /-- How many items the second text has behind the first one. -/
  excess : Nat
  agrees {p q : Parser} : Parsers p q → p.Matches excess q
  /-- What a frame grows into may count on the frame. -/
  counting {f g f' g' : Frame} : Frames f g → Grows f f' →
    (f.parser.Matches excess g.parser → g.kind = f.kind → Frames f' g') → Frames f' g'
  /-- What begins with a result may count on the result. -/
  covering {e r e' r' : Tree × Parser} : Results .beside e r → Covers e e' →
    (e.2.Matches excess r.2 → Results .beside e' r') → Results .beside e' r'
  start {p q : Parser} (k : NodeKind) : Parsers p q → Frames (p.start k) (q.start k)
  look {p q : Parser} : Parsers p q → p.kind ≠ .eof → Parsers p.second.2 q.second.2
  second {f g : Frame} : Frames f g → f.current ≠ .eof → Frames f.second.2 g.second.2
  bump {f g : Frame} (role : Option Role) : Frames f g → f.current ≠ .eof →
    Frames (f.bump role) (g.bump role)
  child {f g : Frame} {role : Option Role} {read read' : Parser → Tree × Parser} : Frames f g →
    f.kind.place role ≠ .item → Reads f.parser (read f.parser).1 (read f.parser).2 →
    (Parsers f.parser g.parser →
      Results (f.kind.place role) (read f.parser) (read' g.parser)) →
    Frames (f.child role read) (g.child role read')
  /-- A comma and the item after it. -/
  item {f g : Frame} {read read' : Parser → Tree × Parser} : Frames f g →
    f.kind = .expressionList → f.current = .comma →
    Reads f.bump.parser (read f.bump.parser).1 (read f.bump.parser).2 →
    (Parsers f.bump.parser g.bump.parser →
      Results .item (read f.bump.parser) (read' g.bump.parser)) →
    Frames (f.bump.child none read) (g.bump.child none read')
  /-- A node that begins with what has been read. -/
  wrap {e r : Tree × Parser} {k : NodeKind} {role : Option Role} : Results .beside e r →
    k.Leads role →
    Frames ((e.2.start k).attach role e.1) ((r.2.start k).attach role r.1)
  finish {f g : Frame} : Frames f g → Results .beside f.finish g.finish
  leaf {p q : Parser} {item : Item} : Parsers p q → p.ahead.head? = some item →
    Results .beside p.takeLeaf q.takeLeaf
  /-- A block and its closer. What follows may count on what stands in front of the closer. -/
  block {f g h h' f' g' : Frame} {closers : List Kind} {closer : Kind} : Frames f g →
    f.kind.closer = some closer → closers ≠ [] → (∀ k ∈ closers, k.isClosingKeyword = true) →
    Grows (f.entered closers) h → (Frames (f.entered closers) (g.entered closers) → Frames h h') →
    Grows (f.left h) f' →
    (h.parser.Matches excess h'.parser → Frames (f.left h) (g.left h') → Frames f' g') →
    Frames f' g'
  skip {f g : Frame} (c : Complaint) : Frames f g → f.current ≠ .eof →
    Frames (f.complain c).skipAsError (g.complain c).skipAsError
  repair {f g : Frame} (c : Complaint) (role : Option Role) (k : Kind) : Frames f g →
    Frames ((f.complain c).insertMissing role k) ((g.complain c).insertMissing role k)
  absent {p q : Parser} (c : Complaint) (k : Kind) : Parsers p q →
    Results .beside (p.missing k, p.complain c) (q.missing k, q.complain c)
  stray {p q : Parser} (c : Complaint) : Parsers p q → p.kind ≠ .eof →
    Frames ((p.complain c).start .error).bump ((q.complain c).start .error).bump
  /-- Nothing is told behind a bracket that the first text leaves open. -/
  unended {f g : Frame} : 0 < excess → f.parser.ahead.toList = [] →
    Frames (f.expect .rBrace) (g.expect .rBrace)

namespace Simulation

variable {σ : Simulation} {f g f' g' : Frame} {p q : Parser}

/-! ## Steps that tell whether to go on -/

/-- Two steps are related if what they lead to is, and they tell the same. -/
def Steps (σ : Simulation) (x y : Frame × Bool) : Prop :=
  σ.Frames x.1 y.1 ∧ ∀ {f' g'}, Grows x.1 f' → (y.2 = x.2 → σ.Frames f' g') → σ.Frames f' g'

theorem Steps.of_frames (h : σ.Frames f g) (b : Bool) : σ.Steps (f, b) (g, b) :=
  ⟨h, fun _ rest => rest rfl⟩

theorem Steps.counting {x y : Frame × Bool} (h : σ.Frames f g) (grown : Grows f x.1)
    (steps : f.parser.Matches σ.excess g.parser → g.kind = f.kind → σ.Steps x y) : σ.Steps x y :=
  ⟨σ.counting h grown fun same kind => (steps same kind).1,
    fun later rest =>
      σ.counting h (grown.trans later) fun same kind => (steps same kind).2 later rest⟩

/-- What follows a step may count on what it tells. -/
theorem Steps.follow {x y : Frame × Bool} (h : σ.Steps x y) (grown : Grows x.1 f')
    (rest : σ.Frames x.1 y.1 → y.2 = x.2 → σ.Frames f' g') : σ.Frames f' g' :=
  h.2 grown (rest h.1)

/-! ## Loops -/

/-- Two loops whose rounds go in step. The second has always `n` more to use up. -/
theorem loops {α : Type} {size : α → Nat} {step step' : α → α × Bool} {S G : α → α → Prop}
    {n : Nat} (refl : ∀ a, G a a) (trans : ∀ {a b c}, G a b → G b c → G a c)
    (counting : ∀ {a b a' b'}, S a b → G a a' → (size b = size a + n → S a' b') → S a' b')
    (each : ∀ {a b}, S a b → G a (step a).1 ∧ S (step a).1 (step' b).1 ∧
      ∀ {a' b'}, G (step a).1 a' → ((step' b).2 = (step a).2 → S a' b') → S a' b')
    {a b : α} (h : S a b) : S (Loop.run size step a) (Loop.run size step' b) := by
  have main : ∀ a b, S a b →
      G a (Loop.run size step a) ∧ S (Loop.run size step a) (Loop.run size step' b) := by
    intro a
    induction a using Loop.run.induct size step with
    | case1 a before next more ih =>
        intro b h
        obtain ⟨grown, stepped, told⟩ := each h
        have left : Loop.run size step a = Loop.run size step next.1 := by
          rw [Loop.run]
          exact if_pos more
        obtain ⟨rest, _⟩ := ih (step' b).1 stepped
        rw [left]
        refine ⟨trans grown rest, told rest fun flags => ?_⟩
        refine counting h (trans grown rest) fun before => counting stepped rest fun after => ?_
        have right : Loop.run size step' b = Loop.run size step' (step' b).1 := by
          rw [Loop.run]
          refine if_pos ?_
          rw [after, before, flags, Nat.add_lt_add_iff_right]
          exact more
        rw [right]
        exact (ih (step' b).1 stepped).2
    | case2 a before next stop =>
        intro b h
        obtain ⟨grown, stepped, told⟩ := each h
        have left : Loop.run size step a = next.1 := by
          rw [Loop.run]
          exact if_neg stop
        rw [left]
        refine ⟨grown, told (refl _) fun flags => ?_⟩
        refine counting h grown fun before => counting stepped (refl _) fun after => ?_
        have right : Loop.run size step' b = (step' b).1 := by
          rw [Loop.run]
          refine if_neg ?_
          rw [after, before, flags, Nat.add_lt_add_iff_right]
          exact stop
        rw [right]
        exact stepped
  exact (main a b h).2

variable {step step' : Frame → Frame × Bool}

/-- Loops of frames, whose rounds may count on what the frame has grown from. -/
theorem loop_from (h : σ.Frames f g)
    (each : ∀ {f₁ g₁}, Grows f f₁ → σ.Frames f₁ g₁ →
      Grows f₁ (step f₁).1 ∧ σ.Steps (step f₁) (step' g₁)) :
    σ.Frames (f.loop step) (g.loop step') := by
  refine (loops (S := fun f₁ g₁ => Grows f f₁ ∧ σ.Frames f₁ g₁) (G := Grows) (n := σ.excess) .refl
    (fun first second => first.trans second) ?_ ?_ (a := f) (b := g) ⟨.refl f, h⟩).2
  · rintro a b a' b' ⟨before, related⟩ grown rest
    exact ⟨before.trans grown, σ.counting related grown fun same _ => (rest same.remaining).2⟩
  · rintro a b ⟨before, related⟩
    obtain ⟨grown, steps⟩ := each before related
    exact ⟨grown, ⟨before.trans grown, steps.1⟩, fun later rest =>
      ⟨(before.trans grown).trans later, steps.2 later fun told => (rest told).2⟩⟩

theorem loop (h : σ.Frames f g) (grows : ∀ f₁, Grows f₁ (step f₁).1)
    (each : ∀ {f₁ g₁}, σ.Frames f₁ g₁ → σ.Steps (step f₁) (step' g₁)) :
    σ.Frames (f.loop step) (g.loop step') :=
  loop_from h fun _ related => ⟨grows _, each related⟩

/-! ## What frames are made of -/

/-- A branch on the current token. -/
theorem branch {c : Kind → Prop} [DecidablePred c] {a a' b b' : Frame} (h : σ.Frames f g)
    (blind : c .semicolon = c .eof) (grown : Grows f (if c f.current then a else b))
    (yes : c f.current → σ.Frames a a') (no : ¬c f.current → σ.Frames b b') :
    σ.Frames (if c f.current then a else b) (if c g.current then a' else b') := by
  refine σ.counting h grown fun same _ => ?_
  have current : c g.current = c f.current := same.blind blind
  rw [ite_cond_congr current]
  split
  · exact yes ‹_›
  · exact no ‹_›

theorem eat (h : σ.Frames f g) {k : Kind} (plain : k.IsPlain) : σ.Steps (f.eat k) (g.eat k) := by
  refine .counting h (Grows.refl f).eat fun same _ => ?_
  have current : (g.current = k) = (f.current = k) := same.is plain
  unfold Frame.eat
  rw [ite_cond_congr current]
  split
  · next here => exact .of_frames (σ.bump none h (here ▸ plain.1)) true
  · exact .of_frames h false

theorem bumpWhile (h : σ.Frames f g) (role : Option Role) (passes : Kind → Bool)
    (eof : passes .eof = false) (semicolon : passes .semicolon = false) :
    σ.Frames (f.bumpWhile role passes) (g.bumpWhile role passes) := by
  refine loop h (Grows.bumpStep role passes) fun {f₁ g₁} related => ?_
  refine .counting related (Grows.bumpStep role passes f₁) fun same _ => ?_
  have current : passes g₁.current = passes f₁.current := same.blind (semicolon.trans eof.symm)
  rw [current]
  split
  · next pass =>
    refine .of_frames (σ.bump role related fun end_ => ?_) true
    rw [end_, eof] at pass
    cases pass
  · exact .of_frames related false

theorem commaSeparated {part part' : Frame → Frame} (h : σ.Frames f g)
    (each : ∀ {f₁ g₁}, Grows f f₁ → σ.Frames f₁ g₁ →
      Grows f₁ (part f₁) ∧ σ.Frames (part f₁) (part' g₁)) :
    σ.Frames (f.commaSeparated part) (g.commaSeparated part') :=
  loop_from h fun before related =>
    have ⟨grown, parts⟩ := each before related
    ⟨grown.eat, eat parts (by decide)⟩

theorem demand (h : σ.Frames f g) {k : Kind} (plain : k.IsPlain) (role : Option Role)
    (c : Complaint) : σ.Steps (f.demand k role c) (g.demand k role c) := by
  refine .counting h (Grows.refl f).demand fun same _ => ?_
  have current : (g.current = k) = (f.current = k) := same.is plain
  have stray : g.current.isStray = f.current.isStray := same.blind (c := Kind.isStray) rfl
  have next : (f.current.isStray = true ∧ g.parser.second.1 = k) =
      (f.current.isStray = true ∧ f.parser.second.1 = k) :=
    propext (and_congr_right fun stray =>
      iff_of_eq (same.second_is (Kind.ne_eof_of_isStray stray) plain))
  rw [Frame.demand_eq, Frame.demand_eq, ite_cond_congr current, stray, ite_cond_congr next]
  split
  · next here => exact .of_frames (σ.bump role h (here ▸ plain.1)) true
  split
  · next stray =>
    have here := Kind.ne_eof_of_isStray stray.1
    have looked : f.second.2.current = f.current := f.parser.kind_second
    have next : f.second.2.parser.second.1 = k := f.parser.second_second.trans stray.2
    have behind : (f.second.2.complain c).skipAsError.current ≠ .eof := by
      rw [Frame.current_skipAsError (looked ▸ here)]
      show (f.second.2.parser.complain c).second.1 ≠ .eof
      rw [Parser.complain, Parser.second_complainAt]
      exact next ▸ plain.1
    exact .of_frames (σ.bump role (σ.skip c (σ.second h here) (looked ▸ here)) behind) true
  · refine .of_frames (σ.repair c role k ?_) false
    split
    · next stray => exact σ.second h (Kind.ne_eof_of_isStray stray)
    · exact h

theorem expect (h : σ.Frames f g) {k : Kind} (plain : k.IsPlain) (role : Option Role) :
    σ.Frames (f.expect k role) (g.expect k role) :=
  (demand h plain role _).1

theorem expectName (h : σ.Frames f g) (role : Role) :
    σ.Frames (f.expectName role) (g.expectName role) := by
  refine σ.counting h (Grows.refl f).expectName fun _ kind => ?_
  unfold Frame.expectName
  rw [kind]
  exact (demand h (by decide) _ _).1

/-- A child whose place is known. -/
theorem childAt (place : Place) {role : Option Role} {read read' : Parser → Tree × Parser}
    (h : σ.Frames f g) (at_ : f.kind.place role = place) (single : place ≠ .item)
    (reads : Reads f.parser (read f.parser).1 (read f.parser).2)
    (each : σ.Parsers f.parser g.parser → σ.Results place (read f.parser) (read' g.parser)) :
    σ.Frames (f.child role read) (g.child role read') :=
  σ.child h (at_ ▸ single) reads fun related => at_ ▸ each related

/-- A child that is read by the same level. -/
theorem childBeside {role : Option Role} {read read' : Parser → Tree × Parser}
    (h : σ.Frames f g) (at_ : f.kind.place role = .beside)
    (reads : Reads f.parser (read f.parser).1 (read f.parser).2)
    (each : σ.Parsers f.parser g.parser → σ.Results .beside (read f.parser) (read' g.parser)) :
    σ.Frames (f.child role read) (g.child role read') :=
  childAt .beside h at_ (by decide) reads each

end Simulation

end JassSyntax
