import JassSyntax.Proofs.Limit.Lockstep
import JassSyntax.Proofs.Simulation.Expressions

/-!
# Skipping what lies too deep

The bottom level puts an operand aside as a whole. An expression around it then goes on with
whatever operators follow, so it comes out behind a chain of operands, wherever the chain was to be
grouped otherwise.
-/

namespace JassSyntax

open Level (IsOperand IsTail IsChain)

namespace Parser

variable {p q : Parser}

theorem kind_eq_head (p : Parser) : p.kind = p.kinds.head?.getD .eof := by
  rw [kind, kinds, Counted.head?, List.head?_map]
  cases p.ahead.toList.head? <;> rfl

/-- In front of an item its kind is the current one. -/
theorem kind_of_kinds {k : Kind} {ks : List Kind} (h : p.kinds = k :: ks) : p.kind = k := by
  rw [kind_eq_head, h]
  rfl

/-- The kinds are ahead, and nothing but nesting has been complained about. -/
structure Faces (ks : List Kind) (p : Parser) : Prop where
  kinds : p.kinds = ks
  cut : p.CutOnce

/-- Two parsers on their way through the same items are at the same one if as much is ahead. -/
theorem ahead_eq_of_kinds {p' q' : Parser} (same : q.ahead = p.ahead) (first : p.Later p')
    (second : q.Later q') (kinds : q'.kinds = p'.kinds) : q'.ahead = p'.ahead := by
  have length : q'.ahead.toList.length = p'.ahead.toList.length := by
    have := congrArg List.length kinds
    rwa [Parser.kinds, Parser.kinds, List.length_map, List.length_map] at this
  have ahead := second.ahead
  rw [same] at ahead
  refine Counted.ext (List.IsSuffix.eq_of_length ?_ length)
  exact List.suffix_of_suffix_length_le ahead first.ahead (Nat.le_of_eq length)

end Parser

namespace Frame

variable {f : Frame} {k : Kind} {ks : List Kind}

theorem faces_bump (h : f.parser.Faces (k :: ks)) (role : Option Role) :
    (f.bump role).parser.Faces ks := by
  refine ⟨?_, ?_⟩
  · rw [Parser.kinds, ahead_bump, List.map_tail]
    exact congrArg List.tail h.kinds
  · rw [Parser.CutOnce, errors_bump]
    exact h.cut

end Frame

/-! ## The bottom level -/

namespace Level

variable {q : Parser} {ks : List Kind}

theorem cutOnce_complainTooDeep (cut : q.CutOnce) (limit : Nat) :
    (complainTooDeep limit q).CutOnce := by
  unfold complainTooDeep
  split
  · exact cut
  · next other =>
    rcases cut with clean | ⟨e, errors, kind⟩
    · refine .inr ⟨(Complaint.tooDeep limit).toError q.span q.kind, ?_, rfl⟩
      rw [Parser.complain, Parser.complainAt, clean]
      rfl
    · simp [errors, kind] at other

theorem skipTooDeep_ahead (limit : Nat) (extent : Extent) (q : Parser) :
    (skipTooDeep limit extent q).2.ahead.toList =
      q.ahead.toList.drop (regionLength extent 0 q.ahead.toList) := by
  rcases skipTooDeep_cases limit extent q with ⟨length, e⟩ | ⟨n, length, e⟩ <;> rw [e, length]
  · rw [complainTooDeep_ahead, List.drop_zero]
  · show (Frame.bumps _ _).parser.ahead.toList = _
    rw [Frame.ahead_bumps]
    show (complainTooDeep limit q).ahead.toList.drop _ = _
    rw [complainTooDeep_ahead]

theorem skipTooDeep_cutOnce (cut : q.CutOnce) (limit : Nat) (extent : Extent) :
    (skipTooDeep limit extent q).2.CutOnce := by
  have complained := cutOnce_complainTooDeep cut limit
  rcases skipTooDeep_cases limit extent q with ⟨_, e⟩ | ⟨n, _, e⟩ <;> rw [e]
  · exact complained
  · show (Frame.bumps _ _).parser.CutOnce
    rw [Parser.CutOnce, Frame.errors_bumps]
    exact complained

theorem cutOff_binding_snd (limit power : Nat) (q : Parser) :
    ((cutOff limit).binding power q).2 = (skipTooDeep limit .operand q).2 := by
  unfold cutOff
  dsimp only
  split <;> next e => rw [e]

/-- The bottom level puts one operand aside. -/
theorem cutOff_binding_faces {first : List Kind} (operand : IsOperand first)
    (h : q.Faces (first ++ ks)) (limit power : Nat) :
    ((cutOff limit).binding power q).2.Faces ks := by
  obtain ⟨xs, ys, ahead, heads, rests⟩ := List.map_eq_append_iff.mp h.kinds
  rw [cutOff_binding_snd]
  refine ⟨?_, skipTooDeep_cutOnce h.cut limit _⟩
  rw [Parser.kinds, skipTooDeep_ahead, ahead, operand xs ys heads, List.drop_left]
  exact rests

end Level

/-! ## Operators around it -/

namespace Expression

variable {limit power : Nat} {ks tail : List Kind} {f : Frame} {e : Tree × Parser}

theorem faces_child {op : Kind} {first rest : List Kind} (operand : IsOperand first)
    (h : f.parser.Faces (op :: (first ++ rest) ++ ks)) (role role' : Option Role) (own : Nat) :
    ((f.bump role).child role' ((Level.cutOff limit).binding own)).parser.Faces (rest ++ ks) := by
  rw [List.cons_append, List.append_assoc] at h
  have bumped := Frame.faces_bump h role
  have skipped := Level.cutOff_binding_faces operand bumped limit own
  exact ⟨skipped.kinds, skipped.cut⟩

theorem listStep_faces (h : f.parser.Faces (tail ++ ks)) (operators : IsTail power tail)
    (other : ks.head? ≠ some .comma) :
    ∃ rest, IsTail power rest ∧
      (listStep (Level.cutOff limit) f).1.parser.Faces (rest ++ ks) := by
  unfold listStep
  split
  · next comma =>
    cases operators with
    | nil =>
        refine absurd ?_ other
        have head := f.parser.kind_eq_head
        rw [h.kinds, List.nil_append] at head
        cases first : ks.head? with
        | some k => rw [first] at head; rw [← comma, Frame.current, head]; rfl
        | none => rw [first] at head; rw [Frame.current, head] at comma; cases comma
    | cons binary tight operand operators =>
        exact ⟨_, operators, faces_child operand h none none (Power.comma + 1)⟩
  · exact ⟨tail, operators, h⟩

/-- A list goes on as far as commas do. -/
theorem list_faces (h : e.2.Faces (tail ++ ks)) (operators : IsTail power tail)
    (other : ks.head? ≠ some .comma) :
    ∃ rest, IsTail power rest ∧ (list (Level.cutOff limit) e.1 e.2).2.Faces (rest ++ ks) := by
  refine Frame.loop_keeps (f := (e.2.start .expressionList).attach none e.1)
    (I := fun f => ∃ rest, IsTail power rest ∧ f.parser.Faces (rest ++ ks)) ?_
    ⟨tail, operators, h.kinds, h.cut⟩
  rintro f ⟨rest, operators, faces⟩
  exact listStep_faces faces operators other

/-- An expression goes on as far as operators of its own do, whatever they belong to. -/
theorem joins_faces (h : e.2.Faces (tail ++ ks)) (operators : IsTail power tail)
    (stops : ∀ k own side, ks.head? = some k → k.binary? = some (own, side) → own < power) :
    (Loop.run (fun e => e.2.remaining) (join (Level.cutOff limit) power) e).2.Faces ks := by
  have traced := Level.cutOff_traced limit
  refine Loop.run_rule
    (P := fun e : Tree × Parser => ∃ rest, IsTail power rest ∧ e.2.Faces (rest ++ ks))
    (Q := fun e : Tree × Parser => e.2.Faces ks) ?_ ?_ ?_ ⟨tail, operators, h⟩
  · rintro e ⟨rest, operators, faces⟩ goes
    rcases join_cases (Level.cutOff limit) power e with ⟨_, j⟩ | ⟨own, side, op, tight, j⟩
    · rw [j] at goes
      cases goes
    have other : e.2.kind = .comma → ks.head? ≠ some .comma := fun comma head => by
      have loose := stops .comma _ _ head rfl
      rw [comma] at op
      cases op
      omega
    cases operators with
    | nil =>
        cases head : ks.head? with
        | none =>
            rw [Parser.kind_eq_head, faces.kinds, List.nil_append, head] at op
            cases op
        | some k =>
            have loose := stops k own side head
            rw [Parser.kind_eq_head, faces.kinds, List.nil_append, head] at op
            exact absurd (loose op) (Nat.not_lt_of_le tight)
    | cons binary tight operand operators =>
        rcases j with ⟨comma, j⟩ | ⟨_, j⟩ <;> rw [j]
        · exact list_faces faces (.cons binary tight operand operators) (other comma)
        · exact ⟨_, operators, faces_child (f := (e.2.start _).attach (some .left) e.1) operand
            ⟨faces.kinds, faces.cut⟩ (some .operator) (some .right) (rightPower own side)⟩
  · rintro e ⟨rest, operators, faces⟩ stop
    rcases join_cases (Level.cutOff limit) power e with
      ⟨loose, j⟩ | ⟨_, _, _, _, ⟨_, j⟩ | ⟨_, j⟩⟩ <;> rw [j] at stop ⊢
    · cases operators with
      | nil => exact faces
      | cons binary tight operand operators =>
          have here := Parser.kind_of_kinds faces.kinds
          exact absurd (loose _ _ (here ▸ binary)) (Nat.not_lt_of_le tight)
    · cases stop
    · cases stop
  · intro e _ goes stalls
    exact absurd stalls (Nat.not_le_of_lt (join_remaining_lt traced goes))

end Expression

end JassSyntax
