import JassSyntax.Proofs.Limit.Skipping
import JassSyntax.Proofs.Simulation.Statements

/-!
# The lowest levels

With no level left expressions and bodies are put aside, and the level above reads around them. Both
come out where the reading without errors does, if its nesting can be cut off there.
-/

namespace JassSyntax

open Level (IsOperand IsTail IsChain)

variable {u : Level} {p q : Parser} {power : Nat}

/-! ## What a chain takes up -/

namespace Parser

/-- Between the parsers there are operators that bind at least as tightly as `power`, with their
operands. -/
def Trails (power : Nat) (p q : Parser) : Prop :=
  ∃ tail, IsTail power tail ∧ p.kinds = tail ++ q.kinds

namespace Trails

variable {r : Parser} {loose : Nat}

theorem refl (power : Nat) (p : Parser) : p.Trails power p := ⟨[], .nil, rfl⟩

theorem trans (first : p.Trails power q) (second : q.Trails power r) : p.Trails power r := by
  obtain ⟨tail, operators, kinds⟩ := first
  obtain ⟨tail', operators', kinds'⟩ := second
  exact ⟨tail ++ tail', operators.append operators', by rw [kinds, kinds', List.append_assoc]⟩

theorem mono (h : p.Trails power q) (le : loose ≤ power) : p.Trails loose q :=
  have ⟨tail, operators, kinds⟩ := h
  ⟨tail, operators.mono le, kinds⟩

end Trails

end Parser

namespace Level

/-- An expression without errors that is a chain takes up the kinds of one. -/
theorem Sound.chain (sound : u.Sound .clean) (tidy : p.Tidy)
    (clean : (u.binding power p).2.errors = #[])
    (chain : (u.binding power p).1.isChain true = true) (loose : power ≤ 11) :
    ∃ ks, IsChain power ks ∧ p.kinds = ks ++ (u.binding power p).2.kinds := by
  have yields := sound.binding power p
  have fits := yields.fits tidy (by rw [clean]; rfl)
  have part := yields.reads.isPart tidy
  exact ⟨_, fits.lawful.isChain part.remarked chain fits.shape.1 fits.shape.2 loose,
    yields.reads.kinds tidy⟩

/-- One that is put aside as a whole takes up the kinds of an operand. -/
theorem Sound.operand (sound : u.Sound .clean) (tidy : p.Tidy)
    (clean : (u.binding power p).2.errors = #[])
    (lone : (u.binding power p).1.isChain false = true) :
    ∃ ks, IsOperand ks ∧ p.kinds = ks ++ (u.binding power p).2.kinds := by
  have yields := sound.binding power p
  have fits := yields.fits tidy (by rw [clean]; rfl)
  have part := yields.reads.isPart tidy
  exact ⟨_, fits.lawful.isOperand part.remarked lone fits.shape.1, yields.reads.kinds tidy⟩

end Level

theorem Frame.kinds_eq_cons {f : Frame} (here : f.current ≠ .eof) (role : Option Role) :
    f.parser.kinds = f.current :: (f.bump role).parser.kinds := by
  obtain ⟨item, head, kind⟩ := Parser.head_of_kind rfl here
  obtain ⟨rest, ahead⟩ := List.head?_eq_some_iff.mp head
  rw [Parser.kinds, Parser.kinds, Frame.ahead_bump, ahead, List.map_cons, List.tail_cons]
  exact congrArg (· :: rest.map Item.kind) kind

namespace Expression

variable {e : Tree × Parser} {f : Frame}

/-- An operator and the chain behind it. -/
theorem child_trails (sound : u.Sound .clean) (tidy : f.parser.Tidy) {own right : Nat}
    {side : Associativity} (op : f.current.binary? = some (own, side)) (tight : own ≤ right)
    (loose : right ≤ 11) (role : Option Role)
    (clean : (u.binding right (f.bump role).parser).2.errors = #[])
    (chain : (u.binding right (f.bump role).parser).1.isChain true = true) :
    f.parser.Trails own (u.binding right (f.bump role).parser).2 := by
  obtain ⟨ks, chain, kinds⟩ := sound.chain (Frame.tidy_bump tidy role) clean chain loose
  refine ⟨f.current :: ks, (chain.mono tight).tail op (Nat.le_refl own), ?_⟩
  rw [Frame.kinds_eq_cons (Kind.ne_eof_of_binary? op) role, kinds, List.cons_append]

theorem listStep_trails (sound : u.Sound .clean) (tidy : f.parser.Tidy)
    (list : f.kind = .expressionList) (clean : (listStep u f).1.parser.errors = #[])
    (severable : (listStep u f).1.Severable 0) :
    f.parser.Trails Power.comma (listStep u f).1.parser := by
  unfold listStep at clean severable ⊢
  split at clean
  · next comma =>
    rw [if_pos comma] at severable ⊢
    have op : f.current.binary? = some (Power.comma, .left) := by rw [comma]; rfl
    exact child_trails sound tidy op (by decide) (by decide) none clean (severable.item list comma)
  · next other =>
    rw [if_neg other]
    exact .refl _ _

theorem list_trails (sound : u.Sound .clean) (tidy : e.2.Tidy)
    (clean : (list u e.1 e.2).2.errors = #[])
    (severable : (list u e.1 e.2).1.isSeverable 0 = true) :
    e.2.Trails Power.comma (list u e.1 e.2).2 := by
  have traced := sound.progresses.traced
  have begun : ((e.2.start .expressionList).attach none e.1).parser.Tidy :=
    Frame.tidy_attach (f := e.2.start .expressionList) tidy none e.1
  refine (Loop.run_related (R := fun f g : Frame => Grows f g ∧ (f.parser.Tidy →
    f.kind = .expressionList → g.parser.errors = #[] → g.Severable 0 →
      f.parser.Trails Power.comma g.parser)) ?_ (fun f => ?_) _).2 begun rfl clean severable
  · rintro f g h ⟨before, first⟩ ⟨after, second⟩
    refine ⟨before.trans after, fun tidy list clean severable => ?_⟩
    exact (first tidy list (after.later.clean clean) (severable.before after)).trans
      (second (before.tidy tidy) (before.kind.trans list) clean severable)
  · exact ⟨listStep_grows traced f, fun tidy list => listStep_trails sound tidy list⟩

theorem join_trails (sound : u.Sound .clean) (tidy : e.2.Tidy)
    (clean : (join u power e).1.2.errors = #[])
    (severable : (join u power e).1.1.isSeverable 0 = true) :
    e.2.Trails power (join u power e).1.2 := by
  rcases join_cases u power e with ⟨_, j⟩ | ⟨own, side, op, tight, ⟨comma, j⟩ | ⟨_, j⟩⟩ <;>
    rw [j] at clean severable ⊢
  · exact .refl _ _
  · rw [comma] at op
    cases op
    exact (list_trails sound tidy clean severable).mono tight
  · let kind : NodeKind := if e.2.kind = .equals then .assignmentExpression else .binaryExpression
    let f := (e.2.start kind).attach (some .left) e.1
    have children : (joined u own side e).Severable 0 := severable
    have trails := child_trails (f := f) sound
      (Frame.tidy_attach (f := e.2.start kind) tidy _ _) op (le_rightPower own side)
      (Kind.rightPower_le_eleven_of_binary? op) (some .operator) clean
      (children.child (NodeKind.place_some_ne_item _ _))
    exact trails.mono tight

/-- Operators behind an operand and what they take. -/
theorem joins_trails (sound : u.Sound .clean) (tidy : e.2.Tidy)
    (clean : (Loop.run (fun e => e.2.remaining) (join u power) e).2.errors = #[])
    (severable : (Loop.run (fun e => e.2.remaining) (join u power) e).1.isSeverable 0 = true) :
    (e.2.errors = #[] ∧ e.1.isSeverable 0 = true) ∧
      e.2.Trails power (Loop.run (fun e => e.2.remaining) (join u power) e).2 := by
  have traced := sound.progresses.traced
  let R := fun a b : Tree × Parser => Covers a b ∧ (a.2.Tidy → b.2.errors = #[] →
    b.1.isSeverable 0 = true → a.2.Trails power b.2)
  have run : R e (Loop.run (fun e => e.2.remaining) (join u power) e) :=
    Loop.run_related ?_ (fun a => ?_) e
  · exact ⟨(severable_of_covers run.1 tidy).2 clean severable, run.2 tidy clean severable⟩
  · rintro a b c ⟨before, first⟩ ⟨after, second⟩
    refine ⟨before.trans after, fun tidy clean severable => ?_⟩
    have between := (@severable_of_covers 0 _ _ before tidy).1
    obtain ⟨clean', severable'⟩ := (severable_of_covers after between).2 clean severable
    exact (first tidy clean' severable').trans (second between clean severable)
  · exact ⟨.single (join_wraps traced power a), fun tidy => join_trails sound tidy⟩

/-! ## One level above the bottom -/

variable {limit : Nat}

/-- Without errors no stray token is put aside. -/
theorem primaryOrStray_of_clean (traced : u.Traced)
    (clean : (extended u (primaryOrStray u p)).2.errors = #[]) :
    ¬(p.kind.isStray = true ∧ (!p.kind.isClosingBracket) = true) := by
  intro stray
  have before := (extended_later traced _).clean clean
  let f := ((p.complain .noExpression).start .error).bump
  have put : (p.complain .noExpression).Later f.parser :=
    .bump (f := (p.complain .noExpression).start .error) (.refl _)
  have grown : Grows f (if f.current.canStartExpression then
      f.child none (operandFrom u (primary u)) else f) := by
    split
    · exact (Grows.refl f).child (operandFrom_reads traced (primary_reads traced) _)
    · exact .refl f
  rw [primaryOrStray, if_pos stray] at before
  exact Parser.errors_complainAt _ _ _ ((put.trans grown.later).clean before)

/-- An operator and its operand, before the node is finished. -/
def signed (inner : Level) (p : Parser) : Frame :=
  ((p.start .unaryExpression).bump (some .operator)).child (some .operand)
    (inner.binding Power.unary)

/-- An operator before its operand. The operand may be put aside only in part. -/
theorem signed_faces (sound : u.Sound .clean) (h : p.InStep limit 0 q)
    (unary : p.kind.isUnary = true) (loose : power ≤ 11) (clean : (signed u p).parser.errors = #[])
    (severable : (signed u p).Severable 0) :
    ∃ tail, IsTail power tail ∧
      (signed (.cutOff limit) q).parser.Faces (tail ++ (signed u p).parser.kinds) := by
  let f := (p.start .unaryExpression).bump (some .operator)
  have here : (p.start .unaryExpression).current ≠ .eof := fun eof => by
    rw [show p.kind = .eof from eof] at unary
    cases unary
  have place : f.kind.place (some .operand) = .operand := by
    rw [Frame.kind_bump]
    rfl
  have chain := severable.child (NodeKind.place_some_ne_item _ _)
  rw [show ({ f with parser := _ } : Frame).kind.place (some .operand) = _ from place] at chain
  obtain ⟨ks, ⟨first, tail, rfl, operand, rest⟩, kinds⟩ :=
    sound.chain (Frame.tidy_bump h.tidy _) clean chain (by decide)
  refine ⟨tail, rest.tighten.mono loose, ?_⟩
  have ahead : q.kinds = p.kind :: (first ++ tail) ++ (u.binding Power.unary f.parser).2.kinds := by
    rw [Parser.kinds, h.ahead]
    exact (Frame.kinds_eq_cons here (some .operator)).trans (congrArg (p.kind :: ·) kinds)
  exact faces_child (f := q.start .unaryExpression) operand ⟨ahead, h.cut⟩ _ _ _

/-- The first operand is read in step, or behind it there are operators that the first reading has
put into it. -/
theorem operand_faces (alike : u.Alike (inStep limit 0) (.cutOff limit)) (sound : u.Sound .clean)
    (h : p.InStep limit 0 q) (loose : power ≤ 11) (clean : (operand u p).2.errors = #[])
    (severable : (operand u p).1.isSeverable 0 = true) :
    ∃ tail, IsTail power tail ∧
      (operand (.cutOff limit) q).2.Faces (tail ++ (operand u p).2.kinds) := by
  unfold operand operandFrom at clean severable ⊢
  rw [h.agrees.kind]
  split at clean
  · next unary =>
    rw [if_pos unary] at severable ⊢
    rw [if_pos unary]
    exact signed_faces sound h unary loose clean severable
  · next other =>
    rw [if_neg other] at severable ⊢
    rw [if_neg other]
    have steady := primaryOrStray_of_clean alike.traced clean
    have same : ∀ (inner : Level) (p' : Parser), p'.kind = p.kind →
        primaryOrStray inner p' = primary inner p' := fun inner p' kind => by
      rw [primaryOrStray, kind, if_neg steady]
    rw [same u p rfl] at clean severable ⊢
    rw [same _ q h.agrees.kind]
    have step := (extended_alike alike (primary_alike alike h)).2 clean severable
    exact ⟨[], .nil, by rw [List.nil_append, Parser.kinds, Parser.kinds, step.ahead], step.cut⟩

/-- Above the bottom level an expression comes out where the reading without errors does. -/
theorem binding_bottom (alike : u.Alike (inStep limit 0) (.cutOff limit)) (sound : u.Sound .clean)
    (h : p.InStep limit 0 q) (loose : power ≤ 11) :
    InStepAt limit 0 .beside (binding u power p) (binding (.cutOff limit) power q) := by
  have traced := sound.progresses.traced
  have reads := binding_reads traced power p
  refine ⟨reads.tidy h.tidy, fun clean severable => ?_⟩
  have first := operand_reads traced p
  obtain ⟨⟨clean', severable'⟩, tail, operators, kinds⟩ :=
    joins_trails sound (first.tidy h.tidy) clean severable
  obtain ⟨tail', operators', faces⟩ := operand_faces alike sound h loose clean' severable'
  rw [kinds, ← List.append_assoc] at faces
  have stops := binding_stops (m := .clean) traced power p (by decide) (by rw [clean]; rfl)
  have joined : (binding (.cutOff limit) power q).2.Faces (binding u power p).2.kinds :=
    joins_faces faces (operators'.append operators) fun k own side head op => stops own side (by
      rw [Parser.kind_eq_head]
      exact (congrArg (fun k => (Option.getD k .eof).binary?) head).trans op)
  have later := (binding_reads (Level.cutOff_traced limit) power q).later
  exact h.later reads.later later clean (reads.tidy h.tidy)
    (Parser.ahead_eq_of_kinds h.ahead reads.later later joined.kinds) joined.cut

end Expression

end JassSyntax
