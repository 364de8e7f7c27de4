import JassSyntax.Proofs.Simulation.Statements

/-!
# Levels side by side

Some relations hold of every reading, however it turns out, and take the depth of nesting to be the
same in both. From the level at the bottom they carry over to all levels above.
-/

namespace JassSyntax

open Level

/-- How far a region reaches depends on kinds alone. -/
theorem Level.regionLength_congr (extent : Extent) : ∀ (balance : Nat) {xs ys : List Item},
    ys.map (·.token.kind) = xs.map (·.token.kind) →
      regionLength extent balance ys = regionLength extent balance xs
  | _, [], [], _ => rfl
  | _, [], _ :: _, same => by cases same
  | _, _ :: _, [], same => by cases same
  | balance, x :: xs, y :: ys, same => by
      obtain ⟨head, tail⟩ := List.cons.inj same
      have kind : y.token.kind = x.token.kind := head
      rw [regionLength, regionLength, kind]
      simp only [regionLength_congr extent _ tail]

/-- A relation that holds however the reading turns out and wherever something is read. -/
structure Simulation.Unconditional (σ : Simulation) : Prop where
  kinds : ∀ {p q}, σ.Parsers p q →
    q.ahead.toList.map (·.token.kind) = p.ahead.toList.map (·.token.kind)
  depth : ∀ {p q}, σ.Parsers p q → q.depth = p.depth
  withDepth : ∀ {p q} (n : Nat), σ.Parsers p q →
    σ.Parsers { p with depth := n } { q with depth := n }
  complainTooDeep : ∀ {p q} (limit : Nat), σ.Parsers p q →
    σ.Parsers (complainTooDeep limit p) (complainTooDeep limit q)
  missing : ∀ {p q} (k : Kind), σ.Parsers p q → σ.Results .beside (p.missing k, p) (q.missing k, q)
  parser : ∀ {f g}, σ.Frames f g → σ.Parsers f.parser g.parser
  withParser : ∀ {f g p q}, σ.Frames f g → σ.Parsers p q →
    σ.Frames { f with parser := p } { g with parser := q }
  kind : ∀ {f g}, σ.Frames f g → g.kind = f.kind
  bumps : ∀ {f g} (n : Nat), σ.Frames f g → σ.Frames (f.bumps n) (g.bumps n)
  /-- A node that begins with what has been read. -/
  around : ∀ {e r} (k : NodeKind), σ.Results .beside e r →
    σ.Frames ((e.2.start k).attach none e.1) ((r.2.start k).attach none r.1)
  anywhere : ∀ {here there e r}, σ.Results here e r → σ.Results there e r
  ascend : ∀ {e r}, σ.Results .beside e r → σ.Results .beside (e.1, e.2.ascend) (r.1, r.2.ascend)

namespace Simulation.Unconditional

variable {σ : Simulation} {inner : Level} {p q : Parser} {f g : Frame}

/-! ### The bottom level -/

/-- Beyond the limit as much is put aside of the one as of the other. -/
theorem skipTooDeep (plain : σ.Unconditional) (h : σ.Parsers p q) (limit : Nat) (extent : Extent) :
    (∃ p' q', Level.skipTooDeep limit extent p = (none, p') ∧
        Level.skipTooDeep limit extent q = (none, q') ∧ σ.Parsers p' q') ∨
      ∃ e r, Level.skipTooDeep limit extent p = (some e.1, e.2) ∧
        Level.skipTooDeep limit extent q = (some r.1, r.2) ∧ Reads p e.1 e.2 ∧
          σ.Results .beside e r := by
  have complained := plain.complainTooDeep limit h
  have length := regionLength_congr extent 0 (plain.kinds h)
  -- A region is counted in kinds, so it is as long in both, and both frames are bumped as often.
  rcases skipTooDeep_cases limit extent p with ⟨first, e⟩ | ⟨n, first, e⟩ <;>
    rcases skipTooDeep_cases limit extent q with ⟨second, e'⟩ | ⟨m, second, e'⟩ <;>
    rw [first, second] at length
  · exact .inl ⟨_, _, e, e', complained⟩
  · cases length
  · cases length
  · cases length
    exact .inr ⟨_, _, e, e', .tooDeep (ahead_of_regionLength first),
      σ.finish (plain.bumps (n + 1) (σ.start .error complained))⟩

theorem cutOff (plain : σ.Unconditional) (limit : Nat) :
    (Level.cutOff limit).Alike σ (Level.cutOff limit) where
  traced := cutOff_traced limit
  enclosed {power p q} _ h := by
    unfold Level.cutOff
    dsimp only
    rcases plain.skipTooDeep h limit .operand with
      ⟨p', q', e, e', skipped⟩ | ⟨r, r', e, e', _, skipped⟩ <;> rw [e, e']
    · exact plain.anywhere (plain.missing .identifier skipped)
    · exact plain.anywhere skipped
  body {terminators f g} _ _ h := by
    have parsers := plain.parser h
    have waiting : g.parser.closesOpenBlock = f.parser.closesOpenBlock := by
      funext k
      rw [Parser.closesOpenBlock, Parser.closesOpenBlock, (σ.agrees parsers).openClosers]
    unfold Level.cutOff
    dsimp only
    rw [waiting]
    rcases plain.skipTooDeep parsers limit
      (.upTo fun k => terminators.contains k || f.parser.closesOpenBlock k) with
      ⟨p', q', e, e', skipped⟩ | ⟨r, r', e, e', reads, skipped⟩ <;> rw [e, e']
    · exact plain.withParser h skipped
    · let block (e : Tree × Parser) : Parser → Tree × Parser :=
        fun _ => ((e.2.start .block).attach none e.1).finish
      have related : σ.Frames (f.child (some .body) (block r)) (g.child (some .body) (block r')) :=
        σ.childAt .body h rfl (by decide) (.around .block rfl reads (.refl _))
          fun _ => plain.anywhere (σ.finish (plain.around .block skipped))
      exact related

/-! ### The levels above -/

theorem ends (plain : σ.Unconditional) (terminators : List Kind)
    (enclosed : f.parser.openClosers ≠ []) (h : σ.Frames f g) :
    EndsBody terminators g ↔ EndsBody terminators f := by
  have same := σ.agrees (plain.parser h)
  rw [EndsBody, EndsBody, show g.current = f.current from same.enclosed enclosed, same.openClosers]

theorem nestedBody (plain : σ.Unconditional) (alike : inner.Alike σ inner)
    (terminators : List Kind) (enclosed : f.parser.openClosers ≠ []) (h : σ.Frames f g) :
    σ.Frames (Statement.body inner terminators f) (Statement.body inner terminators g) := by
  have ends := plain.ends terminators enclosed h
  rw [Statement.body_eq alike.traced, Statement.body_eq alike.traced, plain.kind h]
  by_cases here : EndsBody terminators f
  · rw [if_pos here, if_pos (ends.mpr here)]
    exact h
  · rw [if_neg here, if_neg (mt ends.mp here)]
    refine σ.childAt .body h rfl (by decide)
      (Statement.block_reads alike.traced f.kind terminators _) fun parsers => ?_
    exact plain.anywhere (Statement.block_alike alike f.kind terminators enclosed parsers)

theorem above (plain : σ.Unconditional) (limit : Nat) (alike : inner.Alike σ inner) :
    (inner.above limit).Alike σ (inner.above limit) where
  traced := above_traced limit alike.traced
  enclosed {power p q} loose h := by
    have operands : inner.OperandsAlike σ inner :=
      ⟨fun loose h => plain.anywhere (alike.enclosed loose h),
        fun h => plain.anywhere (alike.enclosed (by decide) h)⟩
    have depth := plain.depth h
    rcases above_binding_cases limit inner power p with ⟨full, e⟩ | ⟨room, e⟩ <;>
      rcases above_binding_cases limit inner power q with ⟨full', e'⟩ | ⟨room', e'⟩
    · rw [e, e']
      exact (plain.cutOff limit).enclosed loose h
    · omega
    · omega
    · rw [e, e', depth]
      exact plain.anywhere (plain.ascend
        (Expression.binding_alike alike operands power (plain.withDepth (p.depth + 1) h)))
  body {terminators f g} closing enclosed h := by
    have parsers := plain.parser h
    have depth := plain.depth parsers
    rcases above_body_cases limit inner terminators f with ⟨full, e⟩ | ⟨room, e⟩ <;>
      rcases above_body_cases limit inner terminators g with ⟨full', e'⟩ | ⟨room', e'⟩
    · rw [e, e']
      exact (plain.cutOff limit).body closing enclosed h
    · omega
    · omega
    · rw [e, e', depth]
      have read := plain.nestedBody alike terminators
        (f := { f with parser := { f.parser with depth := f.parser.depth + 1 } }) enclosed
        (plain.withParser h (plain.withDepth (f.parser.depth + 1) parsers))
      have inside := plain.parser read
      dsimp only [Parser.ascend]
      rw [plain.depth inside]
      exact plain.withParser read (plain.withDepth _ inside)

theorem stack (plain : σ.Unconditional) (limit room : Nat) :
    (Level.stack limit room).Alike σ (Level.stack limit room) := by
  induction room with
  | zero => exact plain.cutOff limit
  | succ room ih => exact plain.above limit ih

end Simulation.Unconditional

end JassSyntax
