import JassSyntax.Proofs.Recovery.Words

/-!
# Functions that are defined have names

A placeholder stands for the name of a struct or of a variable that is not there, but not for the
name of a function: what begins as a function and goes on without a name is an expression. So in
every tree that is read, whatever is wrong with the text, a function that is defined has a name.
-/

namespace JassSyntax

open JassSyntax.Tree

/-! ## Trees and frames -/

namespace Tree

variable {t : Tree}

/-- A child is a name and no placeholder. -/
def IsNamed (t : Tree) : Prop := ∃ n ∈ t.children, n.role = some .name ∧ n.isMissing = false

/-- Functions that are defined in the tree have names. -/
def FunctionsNamed (t : Tree) : Prop :=
  ∀ e ∈ t.elements, e.nodeKind? = some .functionDefinition → e.IsNamed

theorem functionsNamed_of_children
    (here : t.nodeKind? = some .functionDefinition → t.IsNamed)
    (below : ∀ c ∈ t.children, c.FunctionsNamed) : t.FunctionsNamed := by
  intro e mem
  rcases mem_elements.mp mem with rfl | ⟨c, child, mem⟩
  · exact here
  · exact below c child e mem

/-- Where nothing is defined, no function is. -/
theorem Mute.functionsNamed (h : t.Mute) : t.FunctionsNamed := by
  intro e mem node
  cases h e mem _ node

theorem FunctionsNamed.withRole (h : t.FunctionsNamed) (role : Option Role) :
    (t.withRole role).FunctionsNamed := by
  refine functionsNamed_of_children ?_ fun c child => ?_
  · rw [nodeKind?_withRole, IsNamed, children_withRole]
    exact h t (self_mem_elements t)
  · rw [children_withRole] at child
    exact fun e mem => h e (mem_elements_below child mem)

end Tree

namespace Frame

variable {f : Frame} {t : Tree} {role : Option Role}

/-- Functions that are defined in the children so far have names. -/
def FunctionsNamed (f : Frame) : Prop := ∀ c ∈ f.children.toList, c.FunctionsNamed

theorem functionsNamed_start (p : Parser) (kind : NodeKind) : (p.start kind).FunctionsNamed :=
  fun _ mem => by cases mem

theorem FunctionsNamed.attach (h : f.FunctionsNamed) (tidy : f.parser.Tidy)
    (below : t.FunctionsNamed) : (f.attach role t).FunctionsNamed :=
  forall_children_attach tidy (fun _ comment => comment.mute.functionsNamed) h
    (below.withRole role)

theorem FunctionsNamed.bump (h : f.FunctionsNamed) (tidy : f.parser.Tidy) :
    (f.bump role).FunctionsNamed :=
  forall_children_bump tidy (fun _ comment => comment.mute.functionsNamed) h
    fun _ _ => (mute_token _ _).functionsNamed

theorem FunctionsNamed.close (h : f.FunctionsNamed) (tidy : f.parser.Tidy) {closer : Kind}
    (closes : f.kind.closer = some closer) : f.close.FunctionsNamed :=
  forall_children_close closes tidy (fun _ comment => comment.mute.functionsNamed) h
    (fun _ => (mute_token _ _).functionsNamed) fun _ => (mute_missing _ _ _).functionsNamed

theorem FunctionsNamed.finish (h : f.FunctionsNamed)
    (here : f.kind = .functionDefinition → f.Named) : f.finish.1.FunctionsNamed :=
  functionsNamed_of_children (fun node => here (Option.some.inj node)) h

theorem FunctionsNamed.finish_of_ne (h : f.FunctionsNamed) {kind : NodeKind} (same : f.kind = kind)
    (other : kind ≠ .functionDefinition) : f.finish.1.FunctionsNamed :=
  h.finish fun definition => absurd (same.symm.trans definition) other

end Frame

/-! ## Courses -/

theorem NodeKind.ne_functionDefinition {kind : NodeKind}
    (unclosed : kind.isSimple = true ∨ kind.isClause = true) : kind ≠ .functionDefinition := by
  rintro rfl
  revert unclosed
  decide

mutual

/-- Functions that are defined in what is read have names. -/
theorem Forms.functionsNamed : ∀ {s : Scope} {p q : Parser} {t : Tree}, Forms s p t q → p.Tidy →
    t.FunctionsNamed
  | _, p, _, _, .leaf here _, _ => by
      simp only [Parser.takeLeaf, here]
      exact (mute_token _ _).functionsNamed
  | _, p, _, _, .string _ gained _, tidy =>
      (gained.functionsNamed tidy (Frame.functionsNamed_start p _)).finish_of_ne gained.grows.kind
        NodeKind.noConfusion
  | _, p, _, _, .node kind simple _ gained, tidy =>
      (gained.functionsNamed tidy (Frame.functionsNamed_start p kind)).finish_of_ne
        gained.grows.kind (NodeKind.ne_functionDefinition (.inl simple))
  | _, p, _, _, .around (q := q) kind simple _ first _ _ gained, tidy => by
      have after := first.reads.tidy tidy
      have read := gained.functionsNamed (Frame.tidy_attach after _ _)
        ((Frame.functionsNamed_start q kind).attach after (first.functionsNamed tidy))
      exact read.finish_of_ne gained.grows.kind (NodeKind.ne_functionDefinition (.inl simple))
  | _, p, _, _, .block (g := g) (h := h) kind closes _ _ heading inside _ behind _ named,
      tidy => by
      have frames := tidy.encloses closes heading inside
      have headed := heading.functionsNamed (Frame.tidy_bump tidy _)
        ((Frame.functionsNamed_start p kind).bump tidy)
      have filled := inside.functionsNamed ⟨frames.before.pending, frames.before.ahead,
        frames.before.trailing⟩ headed
      have closesHere := frames.kind_after ▸ closes
      have closed : (g.left h).FunctionsNamed := Frame.FunctionsNamed.close
        (f := { h with parser := h.parser.leaveBlock g.parser.openClosers.length }) filled
        ⟨frames.after.pending, frames.after.ahead, frames.after.trailing⟩ closesHere
      have whole := behind.functionsNamed frames.left closed
      refine whole.finish fun definition => ?_
      have same : (g.left h).kind = kind := (Frame.kind_close _).trans frames.kind_after
      have own : g.Named := named (same.symm.trans (behind.grows.kind.symm.trans definition))
      -- The name stands in the heading, and a frame keeps the children that it has.
      have kept : g.children.toList <+: (g.left h).children.toList :=
        inside.grows.children.trans (Frame.children_prefix_close
          (f := { h with parser := h.parser.leaveBlock g.parser.openClosers.length }) closesHere)
      exact own.of_prefix (kept.trans behind.grows.children)
  | _, p, _, _, .clause kind clause heading inside, tidy => by
      have headed := heading.functionsNamed tidy (Frame.functionsNamed_start p kind)
      exact (inside.functionsNamed (heading.grows.tidy tidy) headed).finish_of_ne
        (inside.grows.kind.trans heading.grows.kind)
        (NodeKind.ne_functionDefinition (.inr clause))
  | _, _, _, _, .absent _, _ | _, _, _, _, .absentTooDeep _, _ => (mute_missing _ _ _).functionsNamed
  | _, p, _, _, .mark (c := c) _ _, tidy | _, p, _, _, .aside (c := c) _ _ _ _, tidy =>
      (Frame.mute_aside (tidy.complainAt p.span c) 1).functionsNamed
  | _, p, _, _, .stray (c := c) _ _ _ gained, tidy => by
      have aside : (p.complain c).Tidy := tidy.complainAt _ _
      have read := gained.functionsNamed (Frame.tidy_bump aside none)
        ((Frame.functionsNamed_start (p.complain c) .error).bump aside)
      exact read.finish_of_ne (gained.grows.kind.trans (Frame.kind_bump _ _)) NodeKind.noConfusion
  | _, _, _, _, .tooDeep (n := n) limit _ _, tidy =>
      (Frame.mute_aside (tidy.complainTooDeep limit) (n + 1)).functionsNamed
  | _, _, _, _, .noticing read, tidy | _, _, _, _, .nested read, tidy =>
      read.functionsNamed ⟨tidy.pending, tidy.ahead, tidy.trailing⟩

theorem Gains.functionsNamed : ∀ {kind : NodeKind} {f g : Frame}, Gains kind f g →
    f.parser.Tidy → f.FunctionsNamed → g.FunctionsNamed
  | _, _, _, .refl _, _, h => h
  | _, _, _, .bump gained _ _ _, tidy, h =>
      (gained.functionsNamed tidy h).bump (gained.grows.tidy tidy)
  | _, _, _, .attach (g := g) (q := q) gained read _ _, tidy, h => by
      have before := gained.grows.tidy tidy
      exact Frame.FunctionsNamed.attach (f := { g with parser := q })
        (gained.functionsNamed tidy h) (read.reads.tidy before) (read.functionsNamed before)
  | _, _, _, .notice gained, tidy, h => gained.functionsNamed tidy h

theorem Fills.functionsNamed : ∀ {f g : Frame}, Fills f g → f.parser.Tidy →
    f.FunctionsNamed → g.FunctionsNamed
  | _, _, .refl _, _, h => h
  | _, _, .body (g := g) (q := q) filled read _, tidy, h
  | _, _, .clause (g := g) (q := q) filled read _ _, tidy, h => by
      have before := filled.grows.tidy tidy
      exact Frame.FunctionsNamed.attach (f := { g with parser := q })
        (filled.functionsNamed tidy h) (read.reads.tidy before) (read.functionsNamed before)
  | _, _, .nested filled inside, tidy, h => by
      have before := filled.grows.tidy tidy
      exact inside.functionsNamed ⟨before.pending, before.ahead, before.trailing⟩
        (filled.functionsNamed tidy h)
  | _, _, .tooDeep _ filled _ _, tidy, h => filled.functionsNamed tidy h

end

/-! ## Programs -/

/-- Functions that a program defines have names. -/
theorem Program.parseWithin_functionsNamed (limit : Nat) (tokens : List Token) :
    (parseWithin limit tokens).1.FunctionsNamed := by
  have gained := loop_gains limit tokens
  have before := Parser.tidy_ofTokens tokens
  have after := gained.grows.tidy before
  have named := gained.functionsNamed before (Frame.functionsNamed_start _ _)
  refine functionsNamed_of_children (fun node => by cases node) fun c child => ?_
  rcases mem_children_finish.mp child with child | child | child
  · exact named c child
  · exact (after.pending c child).mute.functionsNamed
  · exact (after.trailing c child).mute.functionsNamed

end JassSyntax
