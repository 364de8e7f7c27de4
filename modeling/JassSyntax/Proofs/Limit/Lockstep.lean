import JassSyntax.Proofs.Limit.Severable

/-!
# Reading with less room

Two readings of one text, the first without errors: the second may have complained about nesting
once. As long as the nesting of what the first one reads can be cut off, both go on at the same
items. So they are in step, as a simulation whose relation counts on how the first one turns out.
-/

namespace JassSyntax

namespace Parser

/-- Nothing has been complained about but nesting, and that at most once. -/
def CutOnce (p : Parser) : Prop :=
  p.errors = #[] ∨ ∃ e, p.errors = #[e] ∧ e.kind = .nestingTooDeep

/-- The first parser has met no error, and the second one stands where the first one does, with
`room` levels left of `limit`. -/
structure InStep (limit room : Nat) (p q : Parser) : Prop where
  clean : p.errors = #[]
  tidy : p.Tidy
  closing : ∀ k ∈ p.openClosers, k.isClosingKeyword = true
  ahead : q.ahead = p.ahead
  openClosers : q.openClosers = p.openClosers
  depth : q.depth + room = limit
  cut : q.CutOnce

namespace InStep

variable {limit room : Nat} {p q p' q' : Parser}

theorem agrees (h : InStep limit room p q) : p.Agrees q where
  kind := by rw [kind, kind, h.ahead]
  second := by
    rw [second, second, h.ahead]
    split <;> rfl
  openClosers := h.openClosers
  remaining := by rw [remaining, remaining, h.ahead]

/-- Both go on, to the same items. -/
theorem later (h : InStep limit room p q) (first : p.Later p') (second : q.Later q')
    (clean : p'.errors = #[]) (tidy : p'.Tidy) (ahead : q'.ahead = p'.ahead)
    (cut : q'.CutOnce) : InStep limit room p' q' where
  clean := clean
  tidy := tidy
  closing := by
    rw [first.openClosers]
    exact h.closing
  ahead := ahead
  openClosers := by rw [second.openClosers, first.openClosers, h.openClosers]
  depth := by rw [second.depth, h.depth]
  cut := cut

end InStep

end Parser

variable {limit room : Nat}

/-- Results at a place are in step if nesting in what is read there can be cut off. -/
def InStepAt (limit room : Nat) (place : Place) (e r : Tree × Parser) : Prop :=
  e.2.Tidy ∧ (e.2.errors = #[] → e.1.isSeverableAt place room = true →
    Parser.InStep limit room e.2 r.2)

namespace Frame

/-- Frames are in step if nesting in the children of the first one can be cut off. -/
def InStep (limit room : Nat) (f g : Frame) : Prop :=
  f.parser.Tidy ∧ (f.parser.errors = #[] → f.Severable room →
    g.kind = f.kind ∧ Parser.InStep limit room f.parser g.parser)

variable {f g : Frame}

theorem ahead_bump_congr (same : g.parser.ahead = f.parser.ahead) (role : Option Role) :
    (g.bump role).parser.ahead = (f.bump role).parser.ahead := by
  cases head : f.parser.ahead.head? with
  | none =>
      rw [bump_of_none head, bump_of_none (same ▸ head)]
      exact same
  | some item =>
      rw [bump_eq head, bump_eq (same ▸ head)]
      exact congrArg Counted.tail same

theorem inStep_bump (h : Parser.InStep limit room f.parser g.parser) (role : Option Role) :
    Parser.InStep limit room (f.bump role).parser (g.bump role).parser := by
  refine h.later (.bump (.refl _)) (.bump (.refl _)) ?_ (tidy_bump h.tidy role) ?_ ?_
  · rw [errors_bump, h.clean]
  · exact ahead_bump_congr h.ahead role
  · rw [Parser.CutOnce, errors_bump]
    exact h.cut

theorem inStep_attach (h : Parser.InStep limit room f.parser g.parser) (role role' : Option Role)
    (t t' : Tree) :
    Parser.InStep limit room (f.attach role t).parser (g.attach role' t').parser :=
  h.later (.attach (.refl _)) (.attach (.refl _)) h.clean (tidy_attach h.tidy role t) h.ahead h.cut

/-- Behind a complaint nothing is claimed. -/
theorem InStep.of_errors (tidy : f.parser.Tidy) (errors : f.parser.errors ≠ #[]) :
    f.InStep limit room g :=
  ⟨tidy, fun clean => absurd clean errors⟩

theorem InStep.before {f' g' : Frame} (h : f.InStep limit room g) (grown : Grows f f')
    (rest : f.parser.Agrees g.parser → g.kind = f.kind → f'.InStep limit room g') :
    f'.InStep limit room g' := by
  refine ⟨grown.tidy h.1, fun clean severable => ?_⟩
  obtain ⟨kind, step⟩ := h.2 (grown.later.clean clean) (severable.before grown)
  exact (rest step.agrees kind).2 clean severable

theorem InStep.bump (h : f.InStep limit room g) (role : Option Role) :
    (f.bump role).InStep limit room (g.bump role) := by
  refine ⟨tidy_bump h.1 role, fun clean severable => ?_⟩
  obtain ⟨kind, step⟩ := h.2 (by rwa [errors_bump] at clean) (severable.before (Grows.refl f).bump)
  exact ⟨by rw [kind_bump, kind_bump, kind], inStep_bump step role⟩

/-- A child that is read in step. -/
theorem InStep.attach {r r' : Tree × Parser} {role : Option Role} (h : f.InStep limit room g)
    (reads : Reads f.parser r.1 r.2)
    (each : Parser.InStep limit room f.parser g.parser →
      ({ f with parser := r.2 }.attach role r.1).Severable room →
      r.2.errors = #[] → Parser.InStep limit room r.2 r'.2) :
    ({ f with parser := r.2 }.attach role r.1).InStep limit room
      ({ g with parser := r'.2 }.attach role r'.1) := by
  have grown : Grows f ({ f with parser := r.2 }.attach role r.1) := (Grows.refl f).attach reads
  refine ⟨grown.tidy h.1, fun clean severable => ?_⟩
  obtain ⟨kind, step⟩ := h.2 (grown.later.clean clean) (severable.before grown)
  have read := each step severable clean
  exact ⟨kind, inStep_attach (f := { f with parser := r.2 }) (g := { g with parser := r'.2 })
    read role role r.1 r'.1⟩

/-- Inside of a block both wait for the same closers. -/
theorem InStep.enter (h : f.InStep limit room g) {closers : List Kind}
    (closing : ∀ k ∈ closers, k.isClosingKeyword = true) (clean : f.parser.errors = #[])
    (severable : f.Severable room) : (f.entered closers).InStep limit room (g.entered closers) := by
  obtain ⟨kind, step⟩ := h.2 clean severable
  refine ⟨⟨h.1.pending, h.1.ahead, h.1.trailing⟩, fun _ _ => ⟨kind, ?_⟩⟩
  refine ⟨step.clean, ⟨h.1.pending, h.1.ahead, h.1.trailing⟩, fun k mem => ?_, step.ahead, ?_,
    step.depth, step.cut⟩
  · rcases List.mem_append.mp mem with mem | mem
    · exact step.closing k mem
    · exact closing k mem
  · exact congrArg (· ++ closers) step.openClosers

/-- Where a block has been closed, the second reading closes it too. -/
theorem inStep_left {h h' : Frame} {closer : Kind} (closes : h.kind.closer = some closer)
    (same : g.parser.openClosers = f.parser.openClosers) (kind : h'.kind = h.kind)
    (step : Parser.InStep limit room h.parser h'.parser)
    (clean : (f.left h).parser.errors = #[]) :
    (g.left h').kind = (f.left h).kind ∧
      Parser.InStep limit room (f.left h).parser (g.left h').parser := by
  have left : Parser.InStep limit room (h.parser.leaveBlock f.parser.openClosers.length)
      (h'.parser.leaveBlock g.parser.openClosers.length) := by
    refine ⟨step.clean, ⟨step.tidy.pending, step.tidy.ahead, step.tidy.trailing⟩,
      fun k mem => step.closing k (List.mem_of_mem_take mem), step.ahead, ?_, step.depth, step.cut⟩
    show h'.parser.openClosers.take _ = h.parser.openClosers.take _
    rw [same, step.openClosers]
  unfold Frame.left at clean ⊢
  rcases close_cases
    (f := { h with parser := h.parser.leaveBlock f.parser.openClosers.length }) closes with
    ⟨here, e⟩ | ⟨_, span, e⟩
  · have there : h'.parser.kind = closer := step.agrees.kind.trans here
    rcases close_cases
      (f := { h' with parser := h'.parser.leaveBlock g.parser.openClosers.length })
      (kind ▸ closes) with ⟨_, e'⟩ | ⟨other, _⟩
    · rw [e, e']
      exact ⟨by rw [kind_bump, kind_bump, kind], inStep_bump (f := { h with parser := _ })
        (g := { h' with parser := _ }) left _⟩
    · exact absurd there other
  · rw [e] at clean
    exact absurd clean (by simp [insertMissing, attach, flush, Parser.complainAt])

theorem InStep.block {h h' f' g' : Frame} {closers : List Kind} {closer : Kind}
    (outside : f.InStep limit room g) (closes : f.kind.closer = some closer)
    (nonempty : closers ≠ []) (closing : ∀ k ∈ closers, k.isClosingKeyword = true)
    (inside : Grows (f.entered closers) h)
    (each : (f.entered closers).InStep limit room (g.entered closers) → h.InStep limit room h')
    (grown : Grows (f.left h) f')
    (rest : h.parser.Agrees h'.parser → (f.left h).InStep limit room (g.left h') →
      f'.InStep limit room g') : f'.InStep limit room g' := by
  have closed : Grows f (f.left h) := .block (.refl f) closes nonempty closing inside
  have whole := closed.trans grown
  refine ⟨whole.tidy outside.1, fun clean severable => ?_⟩
  have before : f.parser.errors = #[] := whole.later.clean clean
  have kind : h.kind = f.kind := inside.kind
  have closes' : h.kind.closer = some closer := kind ▸ closes
  have left := grown.later.clean clean
  have filled : h.parser.errors = #[] :=
    (Parser.Later.close (f := { h with parser := h.parser.leaveBlock f.parser.openClosers.length })
      (p := h.parser.leaveBlock f.parser.openClosers.length) (.refl _) closes').clean left
  have children : h.Severable room :=
    Severable.of_prefix (severable.before grown) (kind_close _) (children_prefix_close
      (f := { h with parser := h.parser.leaveBlock f.parser.openClosers.length }) closes')
  have entered := outside.enter closing before (severable.before whole)
  obtain ⟨same, step⟩ := (each entered).2 filled children
  obtain ⟨_, around⟩ := outside.2 before (severable.before whole)
  have behind := inStep_left closes' around.openClosers same step left
  exact (rest step.agrees ⟨closed.tidy outside.1, fun _ _ => behind⟩).2 clean severable

end Frame

theorem Parser.InStep.second {p q : Parser} (h : InStep limit room p q) :
    InStep limit room p.second.2 q.second.2 := by
  have looked : ∀ p : Parser, p.Later p.second.2 ∧ p.second.2.errors = p.errors ∧
      p.second.2.ahead = p.ahead ∧ p.second.2.pending = p.pending := by
    intro p
    rcases p.second_looked with e | e <;> rw [e]
    · exact ⟨.refl p, rfl, rfl, rfl⟩
    · exact ⟨p.later_noticeEnd, rfl, rfl, rfl⟩
  obtain ⟨first, errors, ahead, pending⟩ := looked p
  obtain ⟨second, errors', ahead', _⟩ := looked q
  refine h.later first second (errors.trans h.clean) (h.tidy.later first ?_)
    (by rw [ahead', ahead, h.ahead]) (by rw [CutOnce, errors']; exact h.cut)
  rw [pending]
  exact h.tidy.pending

theorem Parser.inStep_takeLeaf {p q : Parser} (h : InStep limit room p q) {item : Item}
    (here : p.ahead.head? = some item) : InStep limit room p.takeLeaf.2 q.takeLeaf.2 := by
  have there : q.ahead.head? = some item := h.ahead ▸ here
  have first : Reads p p.takeLeaf.1 p.takeLeaf.2 := .leaf here
  have second : Reads q q.takeLeaf.1 q.takeLeaf.2 := .leaf there
  refine h.later first.later second.later ?_ (first.tidy h.tidy) ?_ ?_
  all_goals simp only [takeLeaf, here, there, advance]
  · exact h.clean
  · exact congrArg Counted.tail h.ahead
  · exact h.cut

/-- What begins with a tree is severable only if the tree is. -/
theorem severable_of_covers {e e' : Tree × Parser} (covers : Covers e e') (tidy : e.2.Tidy) :
    e'.2.Tidy ∧ (e'.2.errors = #[] → e'.1.isSeverable room = true →
      e.2.errors = #[] ∧ e.1.isSeverable room = true) := by
  induction covers with
  | refl => exact ⟨tidy, fun clean severable => ⟨clean, severable⟩⟩
  | @tail b c _ wraps ih =>
      obtain ⟨before, back⟩ := ih
      rcases wraps with rfl | ⟨kind, role, f, _, leads, grown, rfl⟩
      · exact ⟨before, back⟩
      have begun : ((b.2.start kind).attach role b.1).parser.Tidy :=
        Frame.tidy_attach (f := b.2.start kind) before role b.1
      refine ⟨grown.tidy begun, fun clean severable => ?_⟩
      have first : Frame.Severable room f := severable
      exact back (grown.later.clean clean) ((first.before grown).leading before leads)

/-- Reading with `room` levels left. -/
def inStep (limit room : Nat) : Simulation where
  Parsers := Parser.InStep limit room
  Frames := Frame.InStep limit room
  Results := InStepAt limit room
  excess := 0
  agrees h := h.agrees.matched
  counting h grown rest := h.before grown fun same => rest same.matched
  covering h covers rest := by
    obtain ⟨tidy, back⟩ := @severable_of_covers room _ _ covers h.1
    refine ⟨tidy, fun clean severable => ?_⟩
    obtain ⟨clean', severable'⟩ := back clean severable
    exact (rest (h.2 clean' severable').agrees.matched).2 clean severable
  start k h := ⟨h.tidy, fun _ _ => ⟨rfl, h⟩⟩
  look h _ := h.second
  second {f g} h _ := by
    have grown := (Grows.refl f).second
    refine ⟨grown.tidy h.1, fun clean severable => ?_⟩
    obtain ⟨kind, step⟩ := h.2 (grown.later.clean clean) (severable.before grown)
    exact ⟨kind, step.second⟩
  bump role h _ := h.bump role
  child h single reads each :=
    h.attach reads fun step severable clean => (each step).2 clean (severable.child single)
  item h list comma reads each :=
    (h.bump none).attach reads fun step severable clean =>
      (each step).2 clean (severable.item list comma)
  wrap {e r k role} h leads := by
    refine ⟨Frame.tidy_attach (f := e.2.start k) h.1 role e.1, fun clean severable => ⟨rfl, ?_⟩⟩
    have step := h.2 clean (severable.leading h.1 leads)
    exact Frame.inStep_attach (f := e.2.start k) (g := r.2.start k) step role role e.1 r.1
  finish h := ⟨h.1, fun clean severable => (h.2 clean severable).2⟩
  leaf h here := ⟨(Reads.leaf here).tidy h.tidy, fun _ _ => Parser.inStep_takeLeaf h here⟩
  block h closes nonempty closing inside each grown rest :=
    h.block closes nonempty closing inside each grown fun same => rest same.matched
  skip {f g} c h _ := by
    have tidy := h.1.complainAt f.parser.span c
    refine .of_errors (Frame.tidy_skipAsError (f := f.complain c) tidy) ?_
    rw [Frame.errors_skipAsError]
    exact Parser.errors_complainAt _ _ _
  repair {f g} c role k h := by
    have tidy := h.1.complainAt f.parser.span c
    exact .of_errors (Frame.tidy_attach (f := f.complain c) tidy role _)
      (Parser.errors_complainAt _ _ _)
  absent {p q} c k h := ⟨h.tidy.complainAt _ _, fun clean =>
    absurd clean (Parser.errors_complainAt _ _ _)⟩
  stray {p q} c h _ := by
    have tidy := h.tidy.complainAt p.span c
    refine .of_errors (Frame.tidy_bump (f := (p.complain c).start .error) tidy none) ?_
    rw [Frame.errors_bump]
    exact Parser.errors_complainAt _ _ _
  unended more := absurd more (Nat.lt_irrefl 0)

end JassSyntax
