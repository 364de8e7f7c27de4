import JassSyntax.Proofs.Derivation.Statements
import JassSyntax.Proofs.Sequence.Continuing
import JassSyntax.Proofs.Sequence.Noticing
import JassSyntax.Proofs.Sequence.Restarting
import JassSyntax.Proofs.Sequence.Streams

/-!
# Programs one behind the other

A program without errors, a semicolon and any other program: together they are read as each of them
by itself. The first one is read as far as it goes without a look at the second, the semicolon is a
statement of its own, and behind it reading begins anew.
-/

namespace JassSyntax

variable {f g : Frame} {limit : Nat} {inner : Level}

/-! ## Between statements -/

/-- No comment lies between the statements so far, and none waits for the next one. -/
structure Frame.Uncommented (f : Frame) : Prop where
  children : ∀ t ∈ f.children.toList, t.isComment = false
  pending : f.parser.pending = []

theorem Frame.Uncommented.child (h : f.Uncommented) (read : Parser → Tree × Parser)
    (node : (read f.parser).1.isComment = false) (pending : (read f.parser).2.pending = []) :
    (f.child none read).Uncommented where
  children t mem := by
    rw [Frame.child, Frame.children_attach, pending, List.append_nil, List.mem_append,
      List.mem_singleton] at mem
    rcases mem with mem | rfl
    · exact h.children t mem
    · rw [Tree.isComment_withRole]
      exact node
  pending := rfl

namespace Program

/-- The comments of a program lie inside of its statements, but for those behind the last one. -/
theorem step_uncommented (sound : inner.Sound .full) (tidy : f.parser.Tidy)
    (h : f.Uncommented) : (step inner f).1.Uncommented := by
  unfold step
  dsimp only
  split
  · exact h
  split
  · have yields := Statement.statement_yields sound f.parser
    have fits := yields.fits tidy trivial
    obtain ⟨k, node, _⟩ := fits.shape
    have isNode : (Statement.statement inner f.parser).1.isNode = true := by
      rw [Tree.isNode, node]
      rfl
    exact h.child _ fits.significant (yields.reads.pending_nil h.pending isNode)
  · have complained : (f.complain .strayAtTopLevel).Uncommented := ⟨h.children, h.pending⟩
    refine complained.child (fun p => (p.start .error).bump.finish) ?_ (Frame.pending_bump _ _)
    rw [Frame.finish, Tree.ofChildren, Tree.isComment, Frame.kind_bump]
    rfl

/-- A semicolon between statements is one, with the comments in front of it. -/
theorem step_semicolon (inner : Level) {item : Item} (here : f.parser.ahead.head? = some item)
    (semicolon : item.token.kind = .semicolon) (free : f.parser.pending = []) :
    (step inner f).1.children.toList = f.children.toList ++
        [Tree.ofChildren .emptyStatement item.token.span.stop
          (item.comments ++ [.token none item.token])] ∧
      (step inner f).1.parser = { f.parser.advance item with pending := [] } := by
  have kind : f.parser.kind = .semicolon := by
    rw [Parser.kind, here]
    exact semicolon
  have statement :
      Statement.statement inner f.parser = Statement.single .emptyStatement f.parser := by
    unfold Statement.statement
    rw [kind]
  have stepped : (step inner f).1 = f.child none (Statement.single .emptyStatement) := by
    unfold step Frame.child
    dsimp only
    rw [show f.current = .semicolon from kind, statement]
    rfl
  rw [stepped, Frame.child, Frame.children_attach]
  unfold Statement.single
  rw [Frame.bump_eq (f := f.parser.start .emptyStatement) here]
  simp [Frame.finish, Parser.start, free, Tree.ofChildren, Tree.withRole, Parser.advance,
    Frame.attach, Frame.flush]

end Program

/-! ## Behind a semicolon -/

/-- The nodes under construction are read on from the same place, and the second has had children
before. -/
structure Frame.Follows (before : List Tree) (f g : Frame) : Prop where
  children : g.children.toList = before ++ f.children.toList
  parser : g.parser = f.parser

theorem Frame.Follows.child {before : List Tree} (h : f.Follows before g) (role : Option Role)
    (read : Parser → Tree × Parser) : (f.child role read).Follows before (g.child role read) := by
  unfold Frame.child
  dsimp only
  rw [h.parser]
  refine ⟨?_, rfl⟩
  rw [children_attach, children_attach]
  show g.children.toList ++ _ ++ _ = before ++ (f.children.toList ++ _ ++ _)
  rw [h.children, List.append_assoc, List.append_assoc, List.append_assoc]

namespace Program

theorem step_follows (inner : Level) {before : List Tree} (h : f.Follows before g) :
    (step inner f).1.Follows before (step inner g).1 ∧ (step inner g).2 = (step inner f).2 := by
  unfold step
  dsimp only
  rw [show g.current = f.current from congrArg Parser.kind h.parser]
  split
  · exact ⟨h, rfl⟩
  split
  · exact ⟨h.child none (Statement.statement inner), rfl⟩
  · have complained : (f.complain .strayAtTopLevel).Follows before
        (g.complain .strayAtTopLevel) :=
      ⟨h.children, congrArg (Parser.complain · .strayAtTopLevel) h.parser⟩
    exact ⟨complained.child none fun p => (p.start .error).bump.finish, rfl⟩

/-- Reading does not look at the children that a program has had before. -/
theorem loop_follows {before : List Tree} (h : f.Follows before g) :
    (f.loop (step inner)).Follows before (g.loop (step inner)) := by
  refine Simulation.loops (S := Frame.Follows before) (G := fun _ _ => True) (n := 0)
    (fun _ => trivial) (fun _ _ => trivial) (fun h _ more => more ?_) (fun h => ?_) h
  · rw [h.parser]
    rfl
  · obtain ⟨stepped, flags⟩ := step_follows inner h
    exact ⟨trivial, stepped, fun _ more => more flags⟩

theorem outcome_follows {before : List Tree} (h : f.Follows before g) :
    outcome g = (before ++ (outcome f).1, (outcome f).2) := by
  rw [outcome_eq, outcome_eq, h.parser, h.children]
  simp only [List.append_assoc]

theorem outcome_resembles (h : f.Resembles g) : outcome g = outcome f := by
  have same : outcome g.noticing = outcome f.noticing := by rw [h.same]
  rw [outcome_eq, outcome_eq] at same ⊢
  exact same

/-- **Reading begins anew.** Behind other children a text is read as if it stood by itself, wherever
the last token in front of it ended. -/
theorem outcome_behind (limit : Nat) {rest : List Token} {stop : Position}
    (ended : ∃ t ∈ rest, t.kind = .eof) (here : f.parser = (Parser.ofTokens rest).movedTo stop) :
    outcome (f.loop (step (.stack limit limit))) =
      (f.children.toList ++ (parseWithin limit rest).1.children, (parseWithin limit rest).2) := by
  let p := Parser.ofTokens rest
  let read (p : Parser) : List Tree × List ParseError :=
    outcome ((p.start .program).loop (step (.stack limit limit)))
  have eof : p.eof.isSome = true := by
    rw [show p.eof = rest.find? (fun t => t.kind == .eof) from Items.eof_group #[] #[] rest,
      List.find?_isSome]
    simpa using ended
  have follows : Frame.Follows f.children.toList ((p.movedTo stop).start .program) f :=
    ⟨(List.append_nil _).symm, here⟩
  -- A text with an end does not depend on when that was noticed.
  have settle : ∀ {p q : Parser}, p.Resembles q → read q = read p := fun h =>
    outcome_resembles (loop_alike (unnoticed_unconditional.stack limit limit) rfl h)
  have same : read (p.movedTo stop) = read p := calc
    read (p.movedTo stop) = read (p.noticing.movedTo stop) :=
      (settle (p := p.movedTo stop) (q := p.noticing.movedTo stop) ⟨eof, rfl⟩).symm
    _ = read p.noticing := outcome_movedTo (Level.stack_beginsAnew limit limit) rfl
    _ = read p := settle ⟨eof, rfl⟩
  rw [outcome_follows (loop_follows follows)]
  exact congrArg (fun r : List Tree × List ParseError => (f.children.toList ++ r.1, r.2)) same

/-! ## In front of a semicolon -/

theorem loop_of_eof (here : f.current = .eof) : f.loop (step inner) = f := by
  have stop : step inner f = (f, false) := if_pos here
  rw [Frame.loop_of_stop (congrArg Prod.snd stop), stop]

theorem step_goes (inner : Level) (here : f.current ≠ .eof) : (step inner f).2 = true := by
  unfold step
  dsimp only
  rw [if_neg here]
  split <;> rfl

theorem loop_of_ne_eof (progresses : inner.Progresses) (here : f.current ≠ .eof) :
    f.loop (step inner) = (step inner f).1.loop (step inner) := by
  have goes := step_goes inner here
  rw [Frame.loop_eq, if_pos ⟨step_remaining_lt progresses goes, goes⟩]

/-- As far as a first text goes without errors, the second one is read like it, and from there on by
itself. -/
theorem loop_onward {stop : Item} {rest : List Item} (semicolon : stop.token.kind = .semicolon)
    (at_ : f.kind.place none = .beside) (h : f.parser.Unbroken → f.Extends stop rest g)
    (unbroken : (f.loop (step (.stack limit limit))).parser.Unbroken) :
    ∃ g', Grows g g' ∧ (f.loop (step (.stack limit limit))).Extends stop rest g' ∧
      g.loop (step (.stack limit limit)) = g'.loop (step (.stack limit limit)) := by
  have progresses := Level.stack_progresses limit limit
  have grows := step_grows progresses.traced
  induction remaining : f.parser.remaining using Nat.strong_induction_on generalizing f g with
  | _ n ih =>
    by_cases here : f.current = .eof
    · rw [loop_of_eof here] at unbroken ⊢
      exact ⟨g, .refl g, h unbroken, rfl⟩
    have first := loop_of_ne_eof progresses here
    have later : Grows f (f.loop (step (.stack limit limit))) := (Grows.refl f).loop grows
    have extends_ := h (unbroken.before later.later)
    have matched := extends_.parser.matched (unbroken.before later.later) semicolon
    have there : g.current ≠ .eof := by
      rw [show g.current = f.current from matched.kind_of_ne_eof here]
      exact here
    have stepped := (step_alike (σ := onward stop rest semicolon)
      (Level.stack_onward semicolon limit limit) at_ h
      (.inr fun none => here (Parser.kind_of_ahead_nil none))).1
    rw [first] at unbroken ⊢
    have smaller : (step (.stack limit limit) f).1.parser.remaining < n :=
      remaining ▸ step_remaining_lt progresses (step_goes _ here)
    obtain ⟨g', grown, reached, same⟩ := ih _ smaller
      (f := (step (.stack limit limit) f).1) ((grows f).kind ▸ at_) stepped unbroken rfl
    exact ⟨g', (grows g).trans grown, reached, (loop_of_ne_eof progresses there).trans same⟩

end Program

/-! ## Two programs and a semicolon -/

section

variable {A : List Token} {semi : Token} (running : ∀ t ∈ A, t.kind ≠ .eof)
  (semicolon : semi.kind = .semicolon) (rest : List Token)

include running semicolon

theorem Parser.extends_ofTokens {e : Token} (eof : e.kind = .eof) :
    (ofTokens (A ++ [e])).Extends ⟨(Items.ofTokens A).trailing, semi⟩ (Items.ofTokens rest).items
      (ofTokens (A ++ semi :: rest)) := by
  refine ⟨?_, rfl, rfl, rfl, rfl, rfl, rfl⟩
  show (Items.ofTokens (A ++ semi :: rest)).items = (Items.ofTokens (A ++ [e])).items ++ _
  rw [Items.ofTokens_ended running eof, Items.ofTokens_semicolon running semicolon rest]

/-- Behind the semicolon nothing of the first text is left but where it ended. -/
theorem Parser.Extends.behind {p q : Parser}
    (reached : p.Extends ⟨(Items.ofTokens A).trailing, semi⟩ (Items.ofTokens rest).items q)
    (ended : p.ahead.toList = []) (clean : p.errors = #[])
    (later : (ofTokens (A ++ semi :: rest)).Later q) :
    { q.advance ⟨(Items.ofTokens A).trailing, semi⟩ with pending := [] } =
      (ofTokens rest).movedTo semi.span.stop := by
  have stream := Items.ofTokens_semicolon running semicolon rest
  have ahead : q.ahead.tail = .ofList (Items.ofTokens rest).items := Counted.ext (by
    rw [Counted.toList_tail, reached.ahead, ended]
    rfl)
  have trailing : q.trailing = (Items.ofTokens rest).trailing := by
    rw [later.trailing]
    show (Items.ofTokens (A ++ semi :: rest)).trailing = _
    rw [stream]
  have eof : q.eof = (Items.ofTokens rest).eof := by
    rw [later.eof]
    show (Items.ofTokens (A ++ semi :: rest)).eof = _
    rw [stream]
  have errors : q.errors = #[] := reached.errors.trans clean
  have openClosers : q.openClosers = [] := later.openClosers
  have depth : q.depth = 0 := later.depth
  simp only [advance, movedTo, ofTokens, mk.injEq]
  exact ⟨ahead, trailing, eof, reached.noticed, trivial, errors, openClosers, trivial, depth⟩

end

namespace Program

/-- Behind a program without errors and a semicolon, reading comes to where the other text would
begin by itself. -/
theorem loop_semicolon (rest : List Token) {A : List Token} {semi e : Token}
    (running : ∀ t ∈ A, t.kind ≠ .eof) (eof : e.kind = .eof) (semicolon : semi.kind = .semicolon)
    (clean : (parseWithin limit (A ++ [e])).2 = []) :
    let f := ((Parser.ofTokens (A ++ [e])).start .program).loop (step (.stack limit limit))
    let g := (Parser.ofTokens (A ++ semi :: rest)).start .program
    ∃ h : Frame, g.loop (step (.stack limit limit)) = h.loop (step (.stack limit limit)) ∧
      h.parser = (Parser.ofTokens rest).movedTo semi.span.stop ∧
      h.children.toList = f.children.toList ++
        [Tree.ofChildren .emptyStatement semi.span.stop
          ((Items.ofTokens A).trailing ++ [.token none semi])] := by
  intro f g
  let stop : Item := ⟨(Items.ofTokens A).trailing, semi⟩
  have stops : stop.token.kind = .semicolon := semicolon
  have progresses := Level.stack_progresses limit limit
  have grown : Grows ((Parser.ofTokens (A ++ [e])).start .program) f := loop_grows limit _
  have ended : f.parser.ahead.toList = [] :=
    (grown.tidy (Parser.tidy_ofTokens _)).ahead_eq_nil (loop_current progresses _)
  have unbroken : f.parser.Unbroken :=
    ⟨Array.toList_eq_nil_iff.mp clean, fun _ => grown.later.openClosers⟩
  have begun : Frame.Extends stop (Items.ofTokens rest).items
      ((Parser.ofTokens (A ++ [e])).start .program) g :=
    ⟨rfl, rfl, Parser.extends_ofTokens running semicolon rest eof⟩
  obtain ⟨g', later, reached, same⟩ := loop_onward stops rfl (fun _ => begun) unbroken
  have here : g'.parser.ahead.head? = some stop := by
    rw [Counted.head?, reached.parser.ahead, ended]
    rfl
  have there : g'.current ≠ .eof := by
    rw [Frame.current, Parser.kind, here]
    exact fun eof => by cases stops.symm.trans eof
  obtain ⟨children, parser⟩ :=
    step_semicolon (.stack limit limit) here stops (later.pending_nil rfl)
  refine ⟨(step (.stack limit limit) g').1, same.trans (loop_of_ne_eof progresses there), ?_, ?_⟩
  · rw [parser]
    exact reached.parser.behind running semicolon rest ended unbroken.clean later.later
  · rw [children, reached.children]

/-- The children of a program are its statements and then its last comments. -/
theorem children_parseWithin (limit : Nat) (tokens : List Token) :
    let f := ((Parser.ofTokens tokens).start .program).loop (step (.stack limit limit))
    let t := (parseWithin limit tokens).1
    t.parts = f.children.toList ∧
      t.children.filter Tree.isComment = (Items.ofTokens tokens).trailing ∧
      t.children = f.children.toList ++ (Items.ofTokens tokens).trailing := by
  intro f t
  have grown : Grows ((Parser.ofTokens tokens).start .program) f := loop_grows limit tokens
  have kept : f.parser.Tidy ∧ f.Uncommented := by
    refine Frame.loop_keeps (I := fun f => f.parser.Tidy ∧ f.Uncommented) (fun g h => ?_)
      ⟨Parser.tidy_ofTokens tokens, ⟨fun _ mem => (by cases mem), rfl⟩⟩
    have sound : (Level.stack limit limit).Sound .full := Level.stack_sound limit limit
    exact ⟨(step_grows sound.progresses.traced g).tidy h.1, step_uncommented sound h.1 h.2⟩
  obtain ⟨tidy, uncommented⟩ := kept
  have trailing : f.parser.trailing = (Items.ofTokens tokens).trailing := grown.later.trailing
  have comments : ∀ t ∈ (Items.ofTokens tokens).trailing, t.Comment :=
    fun t mem => tidy.trailing t (trailing ▸ mem)
  have children : t.children = f.children.toList ++ (Items.ofTokens tokens).trailing := by
    have outcome := congrArg Prod.fst (outcome_eq f)
    rw [uncommented.pending, trailing, List.append_nil] at outcome
    exact outcome
  refine ⟨?_, ?_, children⟩
  · rw [Tree.parts, children, Tree.significant_append, Tree.significant_of_comments comments,
      List.append_nil, Tree.significant, List.filter_eq_self]
    intro t mem
    rw [uncommented.children t mem]
    rfl
  · rw [children, List.filter_append,
      List.filter_eq_self.mpr fun t mem => (comments t mem).isComment,
      List.filter_eq_nil_iff.mpr, List.nil_append]
    intro t mem
    rw [uncommented.children t mem]
    decide

/-- **Programs compose.** Behind a program without errors and a semicolon, any other program is
read as it is by itself: the same children at the same places, with the same errors. In front of it
stand the statements of the first program, and the semicolon with the comments at its end. -/
theorem parseWithin_semicolon {A B : List Token} {semi e e' : Token}
    (running : ∀ t ∈ A, t.kind ≠ .eof) (eof : e.kind = .eof) (semicolon : semi.kind = .semicolon)
    (eof' : e'.kind = .eof) (clean : (parseWithin limit (A ++ [e])).2 = []) :
    let t := (parseWithin limit (A ++ [e])).1
    let comments := t.children.filter Tree.isComment
    t.children = t.parts ++ comments ∧
      (parseWithin limit (A ++ semi :: (B ++ [e']))).1.children =
        t.parts ++ Tree.ofChildren .emptyStatement semi.span.stop
            (comments ++ [.token none semi]) ::
          (parseWithin limit (B ++ [e'])).1.children ∧
      (parseWithin limit (A ++ semi :: (B ++ [e']))).2 = (parseWithin limit (B ++ [e'])).2 := by
  intro t comments
  obtain ⟨parts, remarks, children⟩ := children_parseWithin limit (A ++ [e])
  have trailing : (Items.ofTokens (A ++ [e])).trailing = (Items.ofTokens A).trailing := by
    rw [Items.ofTokens_ended running eof]
  obtain ⟨h, same, here, before⟩ := loop_semicolon (B ++ [e']) running eof semicolon clean
  have behind := outcome_behind limit ⟨e', by simp, eof'⟩ here
  rw [← same, before, ← parts, ← trailing, ← remarks] at behind
  obtain ⟨together, errors⟩ := Prod.mk.inj behind
  refine ⟨children.trans (congrArg₂ (· ++ ·) parts.symm remarks.symm), ?_, errors⟩
  rw [List.append_assoc] at together
  exact together

/-- Behind `x++ // c` and a semicolon, `) y.` has its two errors as by itself. -/
theorem parseWithin_semicolon_errors :
    let A : List Token :=
      [⟨.identifier, "x", default⟩, ⟨.plusPlus, "++", default⟩, ⟨.lineComment, "// c", default⟩]
    let B : List Token :=
      [⟨.rParen, ")", default⟩, ⟨.identifier, "y", default⟩, ⟨.dot, ".", default⟩]
    let semi : Token := ⟨.semicolon, ";", default⟩
    let eof : Token := ⟨.eof, "", default⟩
    let t := (parseWithin maxDepth (A ++ [eof])).1
    let comments := t.children.filter Tree.isComment
    (parseWithin maxDepth (A ++ [eof])).2 = [] ∧ t.parts.length = 1 ∧ comments.length = 1 ∧
      (parseWithin maxDepth (A ++ semi :: (B ++ [eof]))).2.length = 2 ∧
      (parseWithin maxDepth (A ++ semi :: (B ++ [eof]))).1.children =
        t.parts ++ Tree.ofChildren .emptyStatement semi.span.stop
            (comments ++ [.token none semi]) ::
          (parseWithin maxDepth (B ++ [eof])).1.children := by
  intro A B semi eof t comments
  have running : ∀ t ∈ A, t.kind ≠ .eof := by decide
  have semicolon : semi.kind = .semicolon := rfl
  have ends : eof.kind = .eof := rfl
  have clean : (parseWithin maxDepth (A ++ [eof])).2 = [] := by decide +kernel
  obtain ⟨_, children, errors⟩ := parseWithin_semicolon (B := B) running ends semicolon ends clean
  refine ⟨clean, by decide +kernel, by decide +kernel, ?_, children⟩
  rw [errors]
  decide +kernel

end Program

end JassSyntax
