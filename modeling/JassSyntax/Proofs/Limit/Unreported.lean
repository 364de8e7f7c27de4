import JassSyntax.Proofs.Faults.Accounting
import JassSyntax.Proofs.Limit.Levels

/-!
# Programs within the nesting limit

A limit that is not reported has not been met. Two readings of one text with different limits are
the same as long as the first has cut off nothing, whatever else it complains about. So a text
whose nesting is not complained about reads the same under every larger limit.
-/

namespace JassSyntax

variable {p q : Parser} {f g : Frame}

theorem Covers.later {e r : Tree × Parser} (covers : Covers e r) : e.2.Later r.2 := by
  induction covers with
  | refl => exact .refl _
  | tail _ wraps ih => exact ih.trans wraps.later

namespace Parser.Shallow

theorem later (shallow : q.Shallow) (later : p.Later q) : p.Shallow :=
  shallow.before later.errors

end Parser.Shallow

namespace Frame

/-- The frames are the same, unless nesting has been cut off in the first. -/
def Same (f g : Frame) : Prop := f.parser.Shallow → f = g

theorem Same.counting {f' g' : Frame} (h : f.Same g) (grown : Grows f f')
    (rest : f = g → f'.Same g') : f'.Same g' := fun shallow =>
  rest (h (shallow.later grown.later)) shallow

/-- What both grow into by one operation. -/
theorem Same.apply (h : f.Same g) (op : Frame → Frame) (grown : Grows f (op f)) :
    (op f).Same (op g) :=
  h.counting grown fun same _ => congrArg op same

/-- A child, if nothing is cut off in it. -/
theorem Same.child {role : Option Role} {read read' : Parser → Tree × Parser} (h : f.Same g)
    (reads : Reads f.parser (read f.parser).1 (read f.parser).2)
    (each : f.parser = g.parser → (read f.parser).2.Shallow → read f.parser = read' g.parser) :
    (f.child role read).Same (g.child role read') :=
  h.counting ((Grows.refl f).child reads) fun same shallow => by
    subst same
    unfold Frame.child
    rw [each rfl shallow]

end Frame

/-- Reading the same, as long as the first reading cuts off nothing. -/
def uncut : Simulation where
  Parsers p q := p = q
  Frames := Frame.Same
  Results _ e r := e.2.Shallow → e = r
  excess := 0
  agrees := by
    rintro p _ rfl
    exact (Parser.Agrees.refl p).matched
  counting h grown rest := h.counting grown fun same => by
    subst same
    exact rest (Parser.Agrees.refl _).matched rfl
  covering h covers rest shallow := by
    have same := h (shallow.later covers.later)
    subst same
    exact rest (Parser.Agrees.refl _).matched shallow
  start k h _ := congrArg (Parser.start · k) h
  look h _ := congrArg (·.second.2) h
  second h _ := h.apply (fun f => f.second.2) (Grows.refl _).second
  bump role h _ := h.apply (Frame.bump · role) (Grows.refl _).bump
  child h _ reads each := h.child reads each
  item {f g read read'} h _ _ reads each :=
    (h.apply (Frame.bump ·) (Grows.refl f).bump).child reads each
  wrap {e r k role} h _ shallow := by
    have same := h shallow
    rw [same]
  finish h shallow := congrArg Frame.finish (h shallow)
  leaf h _ _ := congrArg Parser.takeLeaf h
  block {f g h h' f' g' closers closer} outside closes nonempty closing inside each grown rest := by
    have closed : Grows f (f.left h) := .block (.refl f) closes nonempty closing inside
    refine outside.counting (closed.trans grown) fun same shallow => ?_
    subst same
    have closes' : h.kind.closer = some closer := (show h.kind = f.kind from inside.kind) ▸ closes
    have left : (h.parser.leaveBlock f.parser.openClosers.length).Later (f.left h).parser :=
      Parser.Later.close (f := { h with parser := h.parser.leaveBlock _ }) (.refl _) closes'
    have filled := each (fun _ => rfl) (shallow.before (left.trans grown.later).errors)
    subst filled
    exact rest (Parser.Agrees.refl _).matched (fun _ => rfl) shallow
  skip c h here := h.apply (fun f => (f.complain c).skipAsError) ((Grows.refl _).skip here)
  repair c role k h :=
    h.apply (fun f => (f.complain c).insertMissing role k) (Grows.refl _).repair
  absent c k h _ := by rw [h]
  stray c h _ _ := by rw [h]
  unended more := absurd more (Nat.lt_irrefl 0)

/-! ## Levels -/

namespace Level

variable {small large a b : Nat} {u l : Level} {terminators : List Kind}

theorem cutOff_binding_not_shallow (limit power : Nat) (p : Parser) :
    ¬((cutOff limit).binding power p).2.Shallow := by
  have reported := p.not_shallow_complainTooDeep limit
  rcases cutOff_binding_cases limit power p with ⟨_, e⟩ | ⟨n, _, e⟩ <;> rw [e]
  · exact reported
  · show ¬(Frame.bumps _ _).parser.Shallow
    rwa [Parser.Shallow, Frame.errors_bumps]

theorem cutOff_body_not_shallow (limit : Nat) (terminators : List Kind) (f : Frame) :
    ¬((cutOff limit).body terminators f).parser.Shallow := by
  have reported := f.parser.not_shallow_complainTooDeep limit
  rcases cutOff_body_cases limit terminators f with ⟨_, e⟩ | ⟨_, n, e⟩ <;> rw [e]
  · exact reported
  · show ¬(Frame.bumps _ _).parser.Shallow
    rwa [Parser.Shallow, Frame.errors_bumps]

/-- One level deeper, where the limit still leaves room. -/
theorem above_binding_of_lt {limit power : Nat} (inner : Level) (room : p.depth < limit) :
    (inner.above limit).binding power p = deeper (Expression.binding inner power) p := by
  rcases above_binding_cases limit inner power p with ⟨full, _⟩ | ⟨_, e⟩
  · omega
  · exact e

theorem above_body_of_lt {limit : Nat} {inner : Level} (traced : inner.Traced)
    (room : f.parser.depth < limit) :
    (inner.above limit).body terminators f = bodyAround inner terminators f := by
  rcases above_body_cases limit inner terminators f with ⟨full, _⟩ | ⟨_, e⟩
  · omega
  · exact e.trans (nested_body traced terminators f)

/-- Without a report the limit leaves room. -/
theorem lt_of_binding_shallow {limit power : Nat} {inner : Level}
    (shallow : ((inner.above limit).binding power p).2.Shallow) : p.depth < limit := by
  rcases above_binding_cases limit inner power p with ⟨_, e⟩ | ⟨room, _⟩
  · rw [e] at shallow
    exact absurd shallow (cutOff_binding_not_shallow limit power p)
  · exact room

theorem lt_of_body_shallow {limit : Nat} {inner : Level}
    (shallow : ((inner.above limit).body terminators f).parser.Shallow) :
    f.parser.depth < limit := by
  rcases above_body_cases limit inner terminators f with ⟨_, e⟩ | ⟨room, _⟩
  · rw [e] at shallow
    exact absurd shallow (cutOff_body_not_shallow limit terminators f)
  · exact room

theorem above_alike (le : small ≤ large) (traced : l.Traced) (alike : u.Alike uncut l) :
    (u.above small).Alike uncut (l.above large) where
  traced := above_traced small alike.traced
  enclosed {power p q} loose same shallow := by
    cases same
    -- Nothing has been cut off, so the smaller limit leaves room, and the larger one all the more.
    have room := lt_of_binding_shallow shallow
    rw [above_binding_of_lt u room] at shallow ⊢
    rw [above_binding_of_lt l (Nat.lt_of_lt_of_le room le)]
    have operands : u.OperandsAlike uncut l :=
      ⟨fun loose same => alike.enclosed loose same, fun same => alike.enclosed (by decide) same⟩
    unfold deeper
    rw [Expression.binding_alike alike operands power rfl shallow]
  body {terminators f g} terminating enclosed related := by
    have grown := (above_traced small alike.traced).body terminators f terminating enclosed
    refine related.counting grown fun same shallow => ?_
    cases same
    have room := lt_of_body_shallow shallow
    rw [above_body_of_lt alike.traced room] at shallow ⊢
    rw [above_body_of_lt traced (Nat.lt_of_lt_of_le room le)]
    unfold bodyAround at shallow ⊢
    split
    · rfl
    · next begins =>
      rw [if_neg begins] at shallow
      have read := Statement.block_alike alike f.kind terminators
        (p := { f.parser with depth := f.parser.depth + 1 }) enclosed rfl shallow
      unfold Frame.child deeper
      rw [read]

/-- Levels of which the first leave no more room read the same. -/
theorem stack_alike (le : small ≤ large) (fewer : a ≤ b) :
    (stack small a).Alike uncut (stack large b) := by
  induction a generalizing b with
  | zero =>
      exact ⟨cutOff_traced small,
        fun _ _ shallow => absurd shallow (cutOff_binding_not_shallow small _ _),
        fun _ _ _ shallow => absurd shallow (cutOff_body_not_shallow small _ _)⟩
  | succ a ih =>
      obtain ⟨b, rfl⟩ : ∃ c, b = c + 1 := ⟨b - 1, by omega⟩
      exact above_alike le (stack_traced large b) (ih (Nat.le_of_succ_le_succ fewer))

end Level

namespace Program

/-- **A limit that is not reported has not been met.** A program in which nothing is complained
about as nested too deep has the same tree and the same errors under every larger limit. -/
theorem parseWithin_eq_of_unreported {small large : Nat} (le : small ≤ large) (tokens : List Token)
    (unreported : ∀ e ∈ (parseWithin small tokens).2, e.kind ≠ .nestingTooDeep) :
    parseWithin large tokens = parseWithin small tokens := by
  have same : ((Parser.ofTokens tokens).start .program).loop (step (.stack small small)) =
      ((Parser.ofTokens tokens).start .program).loop (step (.stack large large)) :=
    loop_alike (Level.stack_alike le le) rfl rfl unreported
  unfold parseWithin
  rw [same]

/-- The text `do x = a end + ;` needs three levels. With a hundred of them it has the same error. -/
theorem parseWithin_eq_of_unreported_block :
    let tokens : List Token :=
      [⟨.kwDo, "do", default⟩, ⟨.identifier, "x", default⟩, ⟨.equals, "=", default⟩,
        ⟨.identifier, "a", default⟩, ⟨.kwEnd, "end", default⟩, ⟨.plus, "+", default⟩,
        ⟨.semicolon, ";", default⟩]
    (∀ e ∈ (parseWithin 3 tokens).2, e.kind ≠ .nestingTooDeep) ∧ (parseWithin 3 tokens).2 ≠ [] ∧
      parseWithin 100 tokens = parseWithin 3 tokens := by
  intro tokens
  have unreported : ∀ e ∈ (parseWithin 3 tokens).2, e.kind ≠ .nestingTooDeep := by decide +kernel
  exact ⟨unreported, by decide +kernel,
    parseWithin_eq_of_unreported (by decide) tokens unreported⟩

end Program

end JassSyntax
