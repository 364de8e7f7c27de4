import JassSyntax.Proofs.Limit.Bottom

/-!
# Levels in step

With as many levels left as the nesting needs, or with fewer where it can be cut off, every level
reads in step with a level of a reading without errors. This goes by induction on the room that is
left.
-/

namespace JassSyntax

variable {u inner : Level} {p q : Parser} {f g : Frame} {limit room : Nat} {terminators : List Kind}

/-! ## Bodies -/

namespace Statement

theorem bodyStep_remaining_lt (h : inner.Progresses) {construct : NodeKind}
    (goes : (bodyStep inner construct terminators f).2 = true) :
    (bodyStep inner construct terminators f).1.parser.remaining < f.parser.remaining := by
  rw [bodyStep_eq] at goes ⊢
  split at goes
  · cases goes
  · next open_ =>
    have here : f.current ≠ .eof := fun eof => open_ (.inl eof)
    rw [if_neg open_]
    split
    · next starts => exact statement_remaining_lt h starts
    · exact Frame.remaining_skipAsError_lt (f := f.complain _) here

/-- A block goes on up to what ends it. -/
theorem block_ends (h : inner.Progresses) (construct : NodeKind) (f : Frame) :
    Level.EndsBody terminators (f.loop (bodyStep inner construct terminators)) := by
  refine Loop.run_rule (P := fun _ => True) (Q := Level.EndsBody terminators)
    (fun _ _ _ => trivial) ?_ ?_ trivial
  · intro g _ stop
    rw [bodyStep_eq] at stop ⊢
    split at stop
    · next ends =>
      rw [if_pos ends]
      exact ends
    · split at stop <;> cases stop
  · intro g _ goes stalls
    exact absurd stalls (Nat.not_le_of_lt (bodyStep_remaining_lt h goes))

theorem nodeKind_block (traced : inner.Traced) (construct : NodeKind) (terminators : List Kind)
    (p : Parser) : (block inner construct terminators p).1.nodeKind? = some .block :=
  congrArg some ((Grows.refl _).loop (bodyStep_grows traced construct terminators)).kind

/-- A block without errors closes what it opens. -/
theorem block_walks (sound : inner.Sound .clean) (tidy : p.Tidy) {construct : NodeKind}
    (begins : ¬Level.EndsBody terminators (p.start construct))
    (clean : (block inner construct terminators p).2.errors = #[]) :
    Level.walk 0 (block inner construct terminators p).1.kinds = some 0 := by
  have traced := sound.progresses.traced
  have part := (block_reads traced construct terminators p).isPart tidy
  let f := p.start construct
  let t := (block inner construct terminators p).1.withRole (some .body)
  have built := body_builds sound terminators (Frame.Builds.start tidy construct)
  rw [body_eq traced, if_neg begins] at built
  have children : (f.child (some .body) (block inner construct terminators)).children.toList =
      (f.children.toList ++ (block inner construct terminators p).2.pending) ++ [t] :=
    Frame.children_attach _ _ _
  have mem : t ∈ Tree.significant
      (f.child (some .body) (block inner construct terminators)).children.toList := by
    rw [children, Tree.significant_append, Tree.significant_singleton (part.withRole _).significant]
    exact List.mem_append_right _ List.mem_cons_self
  have admits : Tolerance.clean.Admits (block inner construct terminators p).2.errors.toList := by
    rw [clean]
    rfl
  have walks := ((built.word admits).2 t mem).balanced (part.withRole _).remarked .block
    ((Tree.nodeKind?_withRole _ _).trans (nodeKind_block traced _ _ _))
  rwa [Tree.kinds_withRole] at walks

end Statement

namespace Level

/-! ## The bottom level -/

/-- The bottom level puts a body aside. -/
theorem cutOff_body_faces {first ks : List Kind} (walks : walk 0 first = some 0)
    (h : g.parser.Faces (first ++ ks)) (terminating : ∀ k ∈ terminators, k.isClosingKeyword = true)
    (closing : ∀ k ∈ g.parser.openClosers, k.isClosingKeyword = true)
    (ends : ∀ k, ks.head? = some k → k ∈ terminators ∨ k ∈ g.parser.openClosers) (limit : Nat) :
    ((cutOff limit).body terminators g).kind = g.kind ∧
      ((cutOff limit).body terminators g).parser.Faces ks := by
  let stop k := terminators.contains k || g.parser.closesOpenBlock k
  have skipped : ((cutOff limit).body terminators g).kind = g.kind ∧
      ((cutOff limit).body terminators g).parser.ahead =
        (skipTooDeep limit (.upTo stop) g.parser).2.ahead ∧
      ((cutOff limit).body terminators g).parser.errors =
        (skipTooDeep limit (.upTo stop) g.parser).2.errors := by
    unfold cutOff
    dsimp only
    split <;> next e => rw [e]; exact ⟨rfl, rfl, rfl⟩
  obtain ⟨kind, ahead, errors⟩ := skipped
  obtain ⟨xs, ys, items, heads, rests⟩ := List.map_eq_append_iff.mp h.kinds
  have stops : ∀ k, stop k = true ↔ k ∈ terminators ∨ k ∈ g.parser.openClosers := fun k => by
    simp [stop, Parser.closesOpenBlock]
  have last : regionLength (.upTo stop) 0 ys = 0 := by
    cases ys with
    | nil => rfl
    | cons y ys =>
        have here : stop y.token.kind = true :=
          (stops _).mpr (ends _ (by rw [← rests]; rfl))
        rw [regionLength]
        exact if_pos ⟨rfl, here⟩
  have stopping : ∀ k, stop k = true → k.isClosingKeyword = true := fun k here =>
    ((stops k).mp here).elim (terminating k) (closing k)
  have length := regionLength_upTo stopping (heads ▸ walks) ys
  refine ⟨kind, ?_, ?_⟩
  · rw [Parser.kinds, ahead, skipTooDeep_ahead, items, length, last, Nat.add_zero, List.drop_left]
    exact rests
  · rw [Parser.CutOnce, errors]
    exact skipTooDeep_cutOnce h.cut limit _

/-! ## What is read one level deeper -/

/-- Reading one level deeper. -/
def deeper (read : Parser → Tree × Parser) (p : Parser) : Tree × Parser :=
  ((read { p with depth := p.depth + 1 }).1, (read { p with depth := p.depth + 1 }).2.ascend)

theorem deeper_reads {read : Parser → Tree × Parser} (reads : ∀ p, Reads p (read p).1 (read p).2)
    (p : Parser) : Reads p (deeper read p).1 (deeper read p).2 :=
  .nested (reads _)

theorem cutOff_binding_errors (limit power : Nat) (p : Parser) :
    ((cutOff limit).binding power p).2.errors ≠ #[] := by
  have none := errors_complainTooDeep limit p
  rcases cutOff_binding_cases limit power p with ⟨_, e⟩ | ⟨n, _, e⟩ <;> rw [e]
  · exact none
  · show (Frame.bumps _ _).parser.errors ≠ #[]
    rwa [Frame.errors_bumps]

theorem cutOff_body_errors (limit : Nat) (terminators : List Kind) (f : Frame) :
    ((cutOff limit).body terminators f).parser.errors ≠ #[] := by
  have none := errors_complainTooDeep limit f.parser
  rcases cutOff_body_cases limit terminators f with ⟨_, e⟩ | ⟨_, n, e⟩ <;> rw [e]
  · exact none
  · show (Frame.bumps _ _).parser.errors ≠ #[]
    rwa [Frame.errors_bumps]

/-- Without errors nothing is cut off, so the grammar itself has read. -/
theorem binding_of_clean {n a power : Nat} {p : Parser}
    (clean : ((stack n a).binding power p).2.errors = #[]) :
    ∃ b, (stack n a).binding power p = deeper (Expression.binding (stack n b) power) p := by
  cases a with
  | zero => exact absurd clean (cutOff_binding_errors n power p)
  | succ b =>
      rw [stack] at clean ⊢
      rcases above_binding_cases n (stack n b) power p with ⟨_, e⟩ | ⟨_, e⟩
      · rw [e] at clean
        exact absurd clean (cutOff_binding_errors n power p)
      · exact ⟨b, e⟩

theorem binding_of_room {power : Nat} {q : Parser} (depth : q.depth + (room + 1) = limit) :
    (stack limit (room + 1)).binding power q =
      deeper (Expression.binding (stack limit room) power) q := by
  rw [stack]
  rcases above_binding_cases limit (stack limit room) power q with ⟨full, _⟩ | ⟨_, e⟩
  · omega
  · exact e

/-- The body that a level reads around another. -/
def bodyAround (inner : Level) (terminators : List Kind) (f : Frame) : Frame :=
  if EndsBody terminators f then f
  else f.child (some .body) (deeper (Statement.block inner f.kind terminators))

theorem nested_body (traced : inner.Traced) (terminators : List Kind) (f : Frame) :
    (fun g : Frame => { g with parser := g.parser.ascend }) (Statement.body inner terminators
        { f with parser := { f.parser with depth := f.parser.depth + 1 } }) =
      bodyAround inner terminators f := by
  have same : EndsBody terminators
      { f with parser := { f.parser with depth := f.parser.depth + 1 } } ↔
        EndsBody terminators f := Iff.rfl
  rw [Statement.body_eq traced, bodyAround]
  by_cases ends : EndsBody terminators f
  · rw [if_pos ends, if_pos (same.mpr ends)]
    rfl
  · rw [if_neg ends, if_neg (mt same.mp ends)]
    rfl

theorem body_of_clean {n a : Nat} {f : Frame}
    (clean : ((stack n a).body terminators f).parser.errors = #[]) :
    ∃ b, (stack n a).body terminators f = bodyAround (stack n b) terminators f := by
  cases a with
  | zero => exact absurd clean (cutOff_body_errors n terminators f)
  | succ b =>
      rw [stack] at clean ⊢
      rcases above_body_cases n (stack n b) terminators f with ⟨_, e⟩ | ⟨_, e⟩
      · rw [e] at clean
        exact absurd clean (cutOff_body_errors n terminators f)
      · exact ⟨b, e.trans (nested_body (stack_traced n b) terminators f)⟩

theorem body_of_room {g : Frame} (depth : g.parser.depth + (room + 1) = limit) :
    (stack limit (room + 1)).body terminators g =
      bodyAround (stack limit room) terminators g := by
  rw [stack]
  rcases above_body_cases limit (stack limit room) terminators g with ⟨full, _⟩ | ⟨_, e⟩
  · omega
  · exact e.trans (nested_body (stack_traced limit room) terminators g)

/-- A body without errors is balanced, and behind it stands what ends it. -/
theorem bodyAround_balanced (sound : inner.Sound .clean) (tidy : f.parser.Tidy)
    (clean : (bodyAround inner terminators f).parser.errors = #[]) :
    ∃ ks, walk 0 ks = some 0 ∧
      f.parser.kinds = ks ++ (bodyAround inner terminators f).parser.kinds ∧
      EndsBody terminators (bodyAround inner terminators f) := by
  have traced := sound.progresses.traced
  unfold bodyAround at clean ⊢
  split at clean
  · next ends =>
    rw [if_pos ends]
    exact ⟨[], rfl, rfl, ends⟩
  · next begins =>
    rw [if_neg begins]
    let p := { f.parser with depth := f.parser.depth + 1 }
    have reads := deeper_reads (Statement.block_reads traced f.kind terminators) f.parser
    have inside : p.Tidy := ⟨tidy.pending, tidy.ahead, tidy.trailing⟩
    have ends : EndsBody terminators
        ((p.start .block).loop (Statement.bodyStep inner f.kind terminators)) :=
      Statement.block_ends sound.progresses f.kind (p.start .block)
    exact ⟨_, Statement.block_walks sound inside begins clean, reads.kinds tidy, ends⟩

/-! ## Alike levels -/

theorem cutOff_enclosed (n a power : Nat) (h : Parser.InStep limit 0 p q) :
    InStepAt limit 0 .enclosed ((stack n a).binding power p) ((cutOff limit).binding power q) := by
  have sound : (stack n a).Sound .clean := stack_sound n a
  have reads := (sound.binding power p).reads
  refine ⟨reads.tidy h.tidy, fun clean severable => ?_⟩
  obtain ⟨ks, operand, kinds⟩ := sound.operand h.tidy clean severable
  have same : q.kinds = p.kinds := by rw [Parser.kinds, Parser.kinds, h.ahead]
  have faces := cutOff_binding_faces operand ⟨same.trans kinds, h.cut⟩ limit power
  have later := ((cutOff_traced limit).binding power q).later
  exact h.later reads.later later clean (reads.tidy h.tidy)
    (Parser.ahead_eq_of_kinds h.ahead reads.later later faces.kinds) faces.cut

/-- What stands behind a body ends it. -/
theorem EndsBody.stops (ends : EndsBody terminators f) (tidy : f.parser.Tidy) {k : Kind}
    (head : f.parser.kinds.head? = some k) : k ∈ terminators ∨ k ∈ f.parser.openClosers := by
  have current : f.current = k := by
    rw [Frame.current, Parser.kind_eq_head, head]
    rfl
  rw [EndsBody, current] at ends
  refine ends.resolve_left fun eof => ?_
  rw [Parser.kinds, tidy.ahead_eq_nil (current.trans eof)] at head
  cases head

theorem cutOff_body (n a : Nat) (terminating : ∀ k ∈ terminators, k.isClosingKeyword = true)
    (enclosed : f.parser.openClosers ≠ []) (h : f.InStep limit 0 g) :
    ((stack n a).body terminators f).InStep limit 0 ((cutOff limit).body terminators g) := by
  have grown := (stack_traced n a).body terminators f terminating enclosed
  refine ⟨grown.tidy h.1, fun clean severable => ?_⟩
  obtain ⟨kind, step⟩ := h.2 (grown.later.clean clean) (severable.before grown)
  obtain ⟨b, e⟩ := body_of_clean clean
  rw [e] at grown clean ⊢
  have tidy := grown.tidy h.1
  obtain ⟨ks, walks, kinds, ends⟩ := bodyAround_balanced (stack_sound n b) h.1 clean
  have same : g.parser.kinds = f.parser.kinds := by rw [Parser.kinds, Parser.kinds, step.ahead]
  have waiting := step.openClosers
  obtain ⟨kind', faces⟩ := cutOff_body_faces walks ⟨same.trans kinds, step.cut⟩ terminating
    (waiting ▸ step.closing) (fun k head => by
      rw [waiting, ← grown.later.openClosers]
      exact ends.stops tidy head) limit
  have later := ((cutOff_traced limit).body terminators g terminating (waiting ▸ enclosed)).later
  exact ⟨kind'.trans (kind.trans grown.kind.symm), step.later grown.later later clean tidy
    (Parser.ahead_eq_of_kinds step.ahead grown.later later faces.kinds) faces.cut⟩

theorem cutOff_alike (n a limit : Nat) : (stack n a).Alike (inStep limit 0) (cutOff limit) :=
  ⟨stack_traced n a, fun _ h => cutOff_enclosed n a _ h,
    fun terminating enclosed h => cutOff_body n a terminating enclosed h⟩

/-- What is read one level deeper is in step if it is with one level less left. -/
theorem inStepAt_deeper {read read' : Parser → Tree × Parser} {place : Place}
    (h : Parser.InStep limit (room + 1) p q) (inside : place ≠ .beside)
    (reads : ∀ p, Reads p (read p).1 (read p).2) (reads' : ∀ q, Reads q (read' q).1 (read' q).2)
    (each :
      Parser.InStep limit room { p with depth := p.depth + 1 } { q with depth := q.depth + 1 } →
      InStepAt limit room .beside (read { p with depth := p.depth + 1 })
        (read' { q with depth := q.depth + 1 })) :
    InStepAt limit (room + 1) place (deeper read p) (deeper read' q) := by
  have first := deeper_reads reads p
  have second := deeper_reads reads' q
  refine ⟨first.tidy h.tidy, fun clean severable => ?_⟩
  have below : (read { p with depth := p.depth + 1 }).1.isSeverable room = true := by
    cases place <;> first | exact severable | exact absurd rfl inside
  have begun : Parser.InStep limit room { p with depth := p.depth + 1 }
      { q with depth := q.depth + 1 } :=
    ⟨h.clean, ⟨h.tidy.pending, h.tidy.ahead, h.tidy.trailing⟩, h.closing, h.ahead, h.openClosers,
      by rw [← h.depth]; exact Nat.add_right_comm _ 1 room, h.cut⟩
  have step := (each begun).2 clean below
  exact h.later first.later second.later clean (first.tidy h.tidy) step.ahead step.cut

section

variable {n : Nat}

/-- The bindings of the grammar around two levels are in step. -/
def BindingsInStep (limit room : Nat) (u l : Level) : Prop :=
  ∀ {power p q}, power ≤ 11 → Parser.InStep limit room p q →
    InStepAt limit room .beside (Expression.binding u power p) (Expression.binding l power q)

theorem binding_inStep (bindings : ∀ b, BindingsInStep limit room (stack n b) (stack limit room))
    (a : Nat) {power : Nat} (loose : power ≤ 11) (h : Parser.InStep limit (room + 1) p q)
    {place : Place} (inside : place ≠ .beside) :
    InStepAt limit (room + 1) place ((stack n a).binding power p)
      ((stack limit (room + 1)).binding power q) := by
  refine ⟨((stack_traced n a).binding power p).tidy h.tidy, fun clean => ?_⟩
  obtain ⟨b, e⟩ := binding_of_clean clean
  have step := inStepAt_deeper h inside (Expression.binding_reads (stack_traced n b) power)
    (Expression.binding_reads (stack_traced limit room) power) fun h => bindings b loose h
  rw [← e, ← binding_of_room h.depth] at step
  exact step.2 clean

theorem body_inStep (alike : ∀ b, (stack n b).Alike (inStep limit room) (stack limit room))
    (a : Nat) (h : f.InStep limit (room + 1) g)
    (terminating : ∀ k ∈ terminators, k.isClosingKeyword = true)
    (enclosed : f.parser.openClosers ≠ []) :
    ((stack n a).body terminators f).InStep limit (room + 1)
      ((stack limit (room + 1)).body terminators g) := by
  have grown := (stack_traced n a).body terminators f terminating enclosed
  refine ⟨grown.tidy h.1, fun clean severable => ?_⟩
  obtain ⟨kind, step⟩ := h.2 (grown.later.clean clean) (severable.before grown)
  obtain ⟨b, e⟩ := body_of_clean clean
  rw [e] at clean severable ⊢
  rw [body_of_room step.depth]
  have same : EndsBody terminators g ↔ EndsBody terminators f := by
    rw [EndsBody, EndsBody, show g.current = f.current from step.agrees.kind, step.openClosers]
  unfold bodyAround at clean severable ⊢
  by_cases ends : EndsBody terminators f
  · rw [if_pos ends, if_pos (same.mpr ends)]
    exact ⟨kind, step⟩
  · rw [if_neg ends] at clean severable
    rw [if_neg ends, if_neg (mt same.mp ends), kind]
    have first := Statement.block_reads (stack_traced n b) f.kind terminators
    have second := Statement.block_reads (stack_traced limit room) f.kind terminators
    have place : f.kind.place (some .body) = .body := rfl
    have child := Simulation.childAt (σ := inStep limit (room + 1)) .body h place (by decide)
      (deeper_reads first f.parser) fun related => inStepAt_deeper related (by decide) first second
        fun h => Statement.block_alike (alike b) f.kind terminators enclosed h
    exact child.2 clean severable

/-- With `room` levels left every level reads in step with one that meets no error. -/
theorem stack_inStep (n limit room : Nat) :
    (∀ a, (stack n a).Alike (inStep limit room) (stack limit room)) ∧
      ∀ a, BindingsInStep limit room (stack n a) (stack limit room) := by
  induction room with
  | zero =>
      refine ⟨fun a => cutOff_alike n a limit, fun a _ _ _ loose h => ?_⟩
      exact Expression.binding_bottom (cutOff_alike n a limit) (stack_sound n a) h loose
  | succ room ih =>
      obtain ⟨alike, bindings⟩ := ih
      have next : ∀ a, (stack n a).Alike (inStep limit (room + 1)) (stack limit (room + 1)) :=
        fun a => ⟨stack_traced n a, fun loose h => binding_inStep bindings a loose h (by decide),
          fun terminating enclosed h => body_inStep alike a h terminating enclosed⟩
      refine ⟨next, fun a power _ _ loose h => ?_⟩
      have operands :
          (stack n a).OperandsAlike (inStep limit (room + 1)) (stack limit (room + 1)) :=
        ⟨fun loose h => binding_inStep bindings a loose h (by decide),
          fun h => binding_inStep bindings a (by decide) h (by decide)⟩
      exact Expression.binding_alike (next a) operands power h

end

end Level

end JassSyntax
