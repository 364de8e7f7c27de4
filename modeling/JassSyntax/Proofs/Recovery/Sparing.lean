import JassSyntax.Proofs.Derivation.Grouping
import JassSyntax.Proofs.Faults.Accounting
import JassSyntax.Proofs.Recovery.Constructs
import JassSyntax.Proofs.Tree.Paths

/-!
# What is waited for is not put aside

A keyword that closes something is put aside only where nobody waits for it. While a body is read,
all constructs around it wait for their closers; while a condition is read, the construct that it
belongs to does not wait yet, but whatever the condition puts aside lies in the body of a function,
which waits for the same closer.
-/

namespace JassSyntax

open JassSyntax.Tree

/-! ## What is spared -/

/-- Of the keywords that close something, those that a tree of the scope does not put aside,
whatever is waited for around it. -/
def Scope.spared : Scope → List Kind
  | words => [.kwEnd, .kwEndStruct, .kwEndGlobals, .kwEndLoop, .kwUntil, .kwElse, .kwElseIf]
  | expression => [.kwEnd]
  | statement => []

theorem Scope.spared_subset {r s : Scope} (le : r ≤ s) : s.spared ⊆ r.spared := by
  revert le
  cases r <;> cases s <;> decide

/-- What is not put aside in a child, because the node takes it. Behind its closer a loop waits for
nothing more, and a conditional waits for other branches only from its first body on. -/
def NodeKind.guards (k : NodeKind) (role : Option Role) : List Kind :=
  if role = some .condition then if k = .repeatStatement then [] else k.closer.toList
  else k.awaits

theorem NodeKind.guards_subset (k : NodeKind) (role : Option Role) : k.guards role ⊆ k.awaits := by
  unfold guards
  split
  · split
    · exact List.nil_subset _
    · cases k <;> decide
  · exact List.Subset.refl _

/-- What a child can put aside is not guarded by the node, nor spared by it. -/
theorem NodeKind.holds_spares {k : NodeKind} {role : Option Role} (outside : k.Outside role) :
    k.scope.spared ++ k.guards role ⊆ (k.holds role).spared := by
  by_cases condition : role = some .condition
  · subst condition
    cases k <;> decide
  · unfold guards
    rw [if_neg condition]
    -- Which words a declaration holds depends on the role.
    cases k <;> simp only [holds, condition, if_false] <;> (try split) <;> decide

/-- A body can put aside only what nobody waits for. -/
theorem NodeKind.scope_spared_subset {k : NodeKind} {closer : Kind}
    (closes : k.closer = some closer) : k.scope.spared ⊆ k.awaits := by
  revert closes
  cases k <;> (rintro ⟨⟩ <;> decide)

namespace Tree

/-- None of the keywords `A`, nor one that a node in the tree takes itself, is put aside there. -/
inductive Spares : List Kind → Tree → Prop
  | intro {A : List Kind} {t : Tree}
      (here : t.nodeKind? = some .error → ∀ c ∈ t.children, ∀ x, c.token? = some x →
        x.kind.isClosingKeyword = true → x.kind ∉ A)
      (below : ∀ k, t.nodeKind? = some k → ∀ c ∈ t.children, Spares (A ++ k.guards c.role) c) :
      Spares A t

variable {A : List Kind} {t u : Tree}

/-- Tokens and placeholders put nothing aside. -/
theorem spares_of_leaf (leaf : t.nodeKind? = none) : t.Spares A :=
  .intro (fun error => by rw [leaf] at error; cases error)
    fun k node => by rw [leaf] at node; cases node

theorem Spares.withRole (h : t.Spares A) (role : Option Role) : (t.withRole role).Spares A := by
  cases h with
  | intro here below =>
      refine .intro ?_ ?_
      · rw [nodeKind?_withRole, children_withRole]
        exact here
      · rw [nodeKind?_withRole, children_withRole]
        exact below

theorem Comment.spares (comment : t.Comment) : t.Spares A := by
  cases comment with
  | token => exact spares_of_leaf rfl
  | @block opening rest first parts =>
      refine .intro (fun error => by cases error) fun k node c child => ?_
      refine spares_of_leaf ?_
      rcases List.mem_cons.mp child with rfl | mem
      · rfl
      · obtain ⟨role, part, rfl, _⟩ := parts c mem
        rfl

/-- What a node on a way guards is not put aside at its end. -/
theorem Spares.of_path {way : List Step} (h : t.Spares A) (path : Path t way u)
    (error : u.nodeKind? = some .error) {c : Tree} (child : c ∈ u.children) {x : Token}
    (token : c.token? = some x) (closing : x.kind.isClosingKeyword = true) :
    x.kind ∉ A ∧ ∀ s ∈ way, x.kind ∉ s.kind.guards s.child.role := by
  induction path generalizing A with
  | here t =>
      cases h with
      | intro here _ => exact ⟨here error c child x token closing, by simp⟩
  | @down role kind span left right below u way rest ih =>
      cases h with
      | intro _ inside =>
          obtain ⟨outer, inner⟩ := ih (inside kind rfl below (by simp [children])) error child
          rw [List.mem_append, not_or] at outer
          exact ⟨outer.1, List.forall_mem_cons.mpr ⟨outer.2, inner⟩⟩

end Tree

/-! ## Frames -/

namespace Frame

/-- The children so far put aside none of the keywords `A`, nor what the node takes itself. -/
def Sparing (kind : NodeKind) (A : List Kind) (f : Frame) : Prop :=
  ∀ c ∈ f.children.toList, c.Spares (A ++ kind.guards c.role)

/-- None of the keywords `A` is a child itself. -/
def Mild (A : List Kind) (f : Frame) : Prop :=
  ∀ c ∈ f.children.toList, ∀ x, c.token? = some x → x.kind.isClosingKeyword = true → x.kind ∉ A

variable {kind : NodeKind} {A : List Kind} {f : Frame} {t : Tree} {role : Option Role}

theorem sparing_start (p : Parser) : (p.start kind).Sparing kind A := fun _ mem => by cases mem

theorem Sparing.attach (h : f.Sparing kind A) (tidy : f.parser.Tidy)
    (spares : t.Spares (A ++ kind.guards role)) : (f.attach role t).Sparing kind A := by
  refine forall_children_attach (P := fun c => c.Spares (A ++ kind.guards c.role)) tidy
    (fun _ comment => comment.spares) h ?_
  rw [role_withRole]
  exact spares.withRole role

/-- What is read where the bodies of the node are. -/
theorem Sparing.attach_body (h : f.Sparing kind A) {q : Parser} (tidy : q.Tidy)
    (covers : A ++ kind.awaits ⊆ f.parser.openClosers)
    (spares : ∀ {B}, B ⊆ f.parser.openClosers ++ Scope.statement.spared → t.Spares B) :
    ({ f with parser := q }.attach role t).Sparing kind A := by
  refine Sparing.attach (f := { f with parser := q }) h tidy (spares fun k mem => ?_)
  refine List.mem_append_left _ (covers ?_)
  exact List.mem_append.mpr ((List.mem_append.mp mem).imp_right
    fun guarded => NodeKind.guards_subset _ _ guarded)

theorem Sparing.bump (h : f.Sparing kind A) (tidy : f.parser.Tidy) :
    (f.bump role).Sparing kind A :=
  forall_children_bump (P := fun c => c.Spares (A ++ kind.guards c.role)) tidy
    (fun _ comment => comment.spares) h fun _ _ => spares_of_leaf rfl

theorem Sparing.close (h : f.Sparing kind A) (tidy : f.parser.Tidy) {closer : Kind}
    (closes : f.kind.closer = some closer) : f.close.Sparing kind A :=
  forall_children_close (P := fun c => c.Spares (A ++ kind.guards c.role)) closes tidy
    (fun _ comment => comment.spares) h (fun _ => spares_of_leaf rfl) fun _ => spares_of_leaf rfl

theorem Sparing.finish (h : f.Sparing kind A) (same : f.kind = kind)
    (mild : kind = .error → f.Mild A) : f.finish.1.Spares A := by
  refine .intro (fun error => ?_) fun k node c child => ?_
  · exact mild (same.symm.trans (Option.some.inj error))
  · rw [← Option.some.inj node, show f.finish.1.children = f.children.toList from rfl] at *
    rw [same]
    exact h c child

theorem not_closing_of_comment {c : Tree} (comment : c.Comment) {x : Token}
    (token : c.token? = some x) : x.kind.isClosingKeyword = false := by
  cases comment with
  | token trivia =>
      cases token
      revert trivia
      unfold Token.isTrivia
      cases x.kind <;> decide
  | block => cases token

/-- One token that is put aside. -/
theorem mild_aside {p : Parser} (tidy : p.Tidy) (c : Complaint)
    (unawaited : p.kind.isClosingKeyword = true → p.kind ∉ A) :
    ((p.complain c).start .error).bump.Mild A := by
  refine forall_children_bump (f := (p.complain c).start .error) (tidy.complainAt _ _)
    (fun d comment x token closing => ?_) (fun d mem => by cases mem)
    fun item head x token closing => ?_
  · rw [not_closing_of_comment comment token] at closing
    cases closing
  · have kind : p.kind = x.kind := by
      cases token
      rw [Parser.kind, show p.ahead.head? = some item from head]
    exact kind ▸ unawaited (kind ▸ closing)

theorem sparing_aside {p : Parser} (tidy : p.Tidy) (c : Complaint) :
    ((p.complain c).start .error).bump.Sparing .error A :=
  (sparing_start (p.complain c)).bump (tidy.complainAt _ _)

end Frame

theorem Kind.not_isClosingKeyword_of_isOperand {k : Kind} (operand : k.isOperand = true) :
    k.isClosingKeyword = false := by
  revert operand
  cases k <;> decide

/-- In an error node only the first token is no operand. -/
theorem Gains.mild {A : List Kind} : ∀ {kind : NodeKind} {f g : Frame}, Gains kind f g →
    kind = .error → f.parser.Tidy → f.Mild A → g.Mild A
  | _, _, _, .refl _, _, _, h => h
  | _, _, _, .bump _ construct _ _, error, _, _ => by
      rw [error] at construct
      cases construct
  | _, _, _, .attach (g := g) (q := q) gained read _ _, error, tidy, h => by
      refine Frame.forall_children_attach (f := { g with parser := q })
        (read.reads.tidy (gained.grows.tidy tidy)) (fun c comment x token closing => ?_)
        (gained.mild error tidy h) fun x token closing => ?_
      · rw [Frame.not_closing_of_comment comment token] at closing
        cases closing
      · rw [token?_withRole] at token
        rw [Kind.not_isClosingKeyword_of_isOperand (read.isOperand token)] at closing
        cases closing
  | _, _, _, .notice gained, error, tidy, h => gained.mild error tidy h

/-! ## Courses spare what is waited for -/

namespace Scope

variable {r s : Scope} {A C : List Kind}

theorem covers_mono (le : r ≤ s) (covers : A ⊆ C ++ s.spared) : A ⊆ C ++ r.spared := by
  intro k mem
  exact List.mem_append.mpr ((List.mem_append.mp (covers mem)).imp_right
    fun spared => spared_subset le spared)

/-- What a node spares, and what it guards in a role, a child in that role can spare. -/
theorem covers_child {kind : NodeKind} {role : Option Role} (held : r ≤ kind.holds role)
    (outside : kind.Outside role) (covers : A ⊆ C ++ kind.scope.spared) :
    A ++ kind.guards role ⊆ C ++ r.spared := by
  intro k mem
  have child : k ∈ kind.scope.spared ++ kind.guards role → k ∈ r.spared :=
    fun mem => spared_subset held (NodeKind.holds_spares outside mem)
  rcases List.mem_append.mp mem with mem | mem
  · exact List.mem_append.mpr ((List.mem_append.mp (covers mem)).imp_right
      fun spared => child (List.mem_append_left _ spared))
  · exact List.mem_append_right _ (child (List.mem_append_right _ mem))

/-- What a construct spares, and what its bodies end at. -/
theorem covers_bodies {kind : NodeKind} {closer : Kind} (closes : kind.closer = some closer)
    (covers : A ⊆ C ++ kind.scope.spared) : A ++ kind.awaits ⊆ C ++ kind.awaits := by
  intro k mem
  rcases List.mem_append.mp mem with mem | mem
  · exact List.mem_append.mpr ((List.mem_append.mp (covers mem)).imp_right
      fun spared => NodeKind.scope_spared_subset closes spared)
  · exact List.mem_append_right _ mem

end Scope

mutual

/-- A tree does not put aside what a block around it waits for. -/
theorem Forms.spares : ∀ {s : Scope} {p q : Parser} {t : Tree}, Forms s p t q → p.Tidy →
    q.Shallow → ∀ {A : List Kind}, A ⊆ p.openClosers ++ s.spared → t.Spares A
  | _, p, _, _, .leaf here _, _, _, _, _ => by
      simp only [Parser.takeLeaf, here]
      exact spares_of_leaf rfl
  | s, p, _, _, .string _ gained _, tidy, shallow, A, covers => by
      have sparing := gained.sparing tidy shallow
        (Scope.covers_mono s.words_le covers) (Frame.sparing_start p)
      exact sparing.finish gained.grows.kind fun error => by cases error
  | _, p, _, _, .node kind simple within gained, tidy, shallow, A, covers => by
      have sparing := gained.sparing tidy shallow
        (Scope.covers_mono within covers) (Frame.sparing_start p)
      refine sparing.finish gained.grows.kind fun error => ?_
      rw [error] at simple
      cases simple
  | _, p, _, _, .around (q := q) kind simple within first held outside gained, tidy, shallow, A,
      covers => by
      have after := first.reads.tidy tidy
      have enough := Scope.covers_mono within covers
      have spares := first.spares tidy (shallow.before gained.grows.later.errors)
        (Scope.covers_child held outside enough)
      rw [← first.reads.later.openClosers] at enough
      have sparing := gained.sparing (Frame.tidy_attach after _ _) shallow enough
        ((Frame.sparing_start q).attach after spares)
      refine sparing.finish gained.grows.kind fun error => ?_
      rw [error] at simple
      cases simple
  | _, p, _, _, .block (g := g) (h := h) kind closes opens within heading inside stops behind _ _,
      tidy, shallow, A, covers => by
      have frames := tidy.encloses closes heading inside
      have enough := Scope.covers_mono within covers
      have filled := (shallow.before behind.grows.later.errors).before frames.told
      have headed := heading.sparing (Frame.tidy_bump tidy _)
        (filled.before inside.grows.later.errors) (A := A)
        (by rw [(Parser.Later.bump (f := p.start kind) (.refl _)).openClosers]; exact enough)
        ((Frame.sparing_start p).bump tidy)
      have entered : A ++ kind.awaits ⊆ (g.entered kind.awaits).parser.openClosers := by
        show _ ⊆ g.parser.openClosers ++ kind.awaits
        rw [frames.outer]
        exact Scope.covers_bodies closes enough
      have bodies := inside.sparing ⟨frames.before.pending, frames.before.ahead,
        frames.before.trailing⟩ filled entered headed
      have closed : (g.left h).Sparing kind A := Frame.Sparing.close
        (f := { h with parser := h.parser.leaveBlock g.parser.openClosers.length }) bodies
        ⟨frames.after.pending, frames.after.ahead, frames.after.trailing⟩
        (frames.kind_after ▸ closes)
      rw [← frames.around] at enough
      have sparing := behind.sparing frames.left shallow enough closed
      refine sparing.finish ?_ fun error => ?_
      · rw [behind.grows.kind, Frame.left, Frame.kind_close]
        exact frames.kind_after
      · rw [error] at closes
        cases closes
  | _, p, _, _, .clause (g := g) kind clause heading inside, tidy, shallow, A, covers => by
      have grown := heading.grows.later.openClosers
      have headed := heading.sparing tidy (shallow.before inside.grows.later.errors)
        (Scope.covers_mono (Scope.le_statement _) covers) (Frame.sparing_start p)
      have none : kind.awaits = [] := by
        revert clause
        cases kind <;> decide
      have enough : A ++ kind.awaits ⊆ g.parser.openClosers := by
        rw [none, List.append_nil, grown]
        exact fun k mem =>
          (List.mem_append.mp (covers mem)).resolve_right (by simp [Scope.spared])
      have filled := inside.sparing (heading.grows.tidy tidy) shallow enough headed
      refine filled.finish (inside.grows.kind.trans heading.grows.kind) fun error => ?_
      rw [error] at clause
      cases clause
  | _, _, _, _, .absent _, _, _, _, _ => spares_of_leaf rfl
  | _, p, _, _, .mark (c := c) misplaced _, tidy, _, A, _ =>
      (Frame.sparing_aside tidy c).finish (Frame.kind_bump _ _) fun _ =>
        Frame.mild_aside tidy c fun closing => absurd closing (by simp [misplaced.mild])
  | _, p, _, _, .stray (c := c) misplaced _ within gained, tidy, shallow, A, covers => by
      have begun := Frame.tidy_bump (f := (p.complain c).start .error) (tidy.complainAt _ _) none
      have enough := Scope.covers_mono within covers
      rw [show p.openClosers = ((p.complain c).start .error).bump.parser.openClosers from
        (Parser.Later.bump (f := (p.complain c).start .error) (.refl _)).openClosers.symm] at enough
      have sparing := gained.sparing begun shallow enough (Frame.sparing_aside tidy c)
      have mild := Frame.mild_aside (A := A) tidy c fun closing =>
        absurd closing (by simp [misplaced.mild])
      exact sparing.finish (gained.grows.kind.trans (Frame.kind_bump _ _)) fun _ =>
        gained.mild rfl begun mild
  | _, p, _, _, .aside (c := c) _ _ unawaited _, tidy, _, A, covers =>
      (Frame.sparing_aside tidy c).finish (Frame.kind_bump _ _) fun _ =>
        Frame.mild_aside tidy c fun _ awaited => unawaited (by
          simpa [Scope.spared] using covers awaited)
  | _, p, _, _, .tooDeep limit _ _, _, shallow, _, _ => by
      refine absurd (shallow.before ?_) (Parser.not_shallow_complainTooDeep limit p)
      exact (Parser.Later.bumps (f := (Level.complainTooDeep limit p).start .error)
        (.refl _)).errors
  | _, p, _, _, .absentTooDeep limit, _, shallow, _, _ =>
      absurd shallow (Parser.not_shallow_complainTooDeep limit p)
  | _, _, _, _, .noticing read, tidy, shallow, _, covers =>
      read.spares ⟨tidy.pending, tidy.ahead, tidy.trailing⟩ shallow covers
  | _, _, _, _, .nested read, tidy, shallow, _, covers =>
      read.spares ⟨tidy.pending, tidy.ahead, tidy.trailing⟩ shallow covers

theorem Gains.sparing : ∀ {kind : NodeKind} {f g : Frame}, Gains kind f g → f.parser.Tidy →
    g.parser.Shallow → ∀ {A : List Kind}, A ⊆ f.parser.openClosers ++ kind.scope.spared →
    f.Sparing kind A → g.Sparing kind A
  | _, _, _, .refl _, _, _, _, _, h => h
  | _, _, _, .bump gained _ _ _, tidy, shallow, _, covers, h => by
      rw [Parser.Shallow, Frame.errors_bump] at shallow
      exact (gained.sparing tidy shallow covers h).bump (gained.grows.tidy tidy)
  | _, _, _, .attach (g := g) (q := q) gained read held outside, tidy, shallow, A, covers, h => by
      have before := gained.grows.tidy tidy
      have sparing := gained.sparing tidy
        (Parser.Shallow.before (q := q) shallow read.reads.later.errors) covers h
      rw [← gained.grows.later.openClosers] at covers
      exact sparing.attach (f := { g with parser := q }) (read.reads.tidy before)
        (read.spares before shallow (Scope.covers_child held outside covers))
  | _, _, _, .notice gained, tidy, shallow, _, covers, h => gained.sparing tidy shallow covers h

/-- The bodies of a node do not put aside what they end at. -/
theorem Fills.sparing : ∀ {f g : Frame}, Fills f g → f.parser.Tidy → g.parser.Shallow →
    ∀ {kind : NodeKind} {A : List Kind}, A ++ kind.awaits ⊆ f.parser.openClosers →
    f.Sparing kind A → g.Sparing kind A
  | _, _, .refl _, _, _, _, _, _, h => h
  | _, _, .body (q := q) filled read _, tidy, shallow, _, _, covers, h => by
      have before := filled.grows.tidy tidy
      have sparing := filled.sparing tidy
        (Parser.Shallow.before (q := q) shallow read.reads.later.errors) covers h
      rw [← filled.grows.later.openClosers] at covers
      exact sparing.attach_body (read.reads.tidy before) covers (read.spares before shallow)
  | _, _, .clause (q := q) filled read _ _, tidy, shallow, _, _, covers, h => by
      have before := filled.grows.tidy tidy
      have sparing := filled.sparing tidy
        (Parser.Shallow.before (q := q) shallow read.reads.later.errors) covers h
      rw [← filled.grows.later.openClosers] at covers
      exact sparing.attach_body (read.reads.tidy before) covers (read.spares before shallow)
  | _, _, .nested filled inside, tidy, shallow, _, _, covers, h => by
      have before := filled.grows.tidy tidy
      have sparing := filled.sparing tidy
        (Parser.Shallow.before shallow inside.grows.later.errors) covers h
      rw [← filled.grows.later.openClosers] at covers
      exact inside.sparing ⟨before.pending, before.ahead, before.trailing⟩ shallow covers sparing
  | _, _, .tooDeep (g := g) limit _ _ _, _, shallow, _, _, _, _ =>
      absurd shallow (Parser.not_shallow_complainTooDeep limit g.parser)

end

/-! ## Behind the closer of a loop -/

/-- On the way to something that is no comment every node is built by its production. -/
theorem Tree.Lawful.of_path {m : Tolerance} {t u : Tree} {way : List Step} (lawful : t.Lawful m)
    (remarked : t.Remarked) (path : Path t way u) (plain : ¬u.Comment) :
    ∀ s ∈ way, s.child.isComment = false ∧
      significant (s.left ++ s.child :: s.right) ∈ production m s.kind := by
  induction path with
  | here t => simp
  | @down role kind span left right child u way rest ih =>
      have mem : child ∈ left ++ child :: right := by simp
      have below := remarked.of_child (c := child) mem
      have significant := rest.isComment_eq_false below plain
      have part : child ∈ (Tree.node role kind span (left ++ child :: right)).parts :=
        List.mem_filter.mpr ⟨mem, by simp [significant]⟩
      exact List.forall_mem_cons.mpr ⟨⟨significant, lawful.here.derived kind rfl⟩,
        ih (lawful.of_part child part) below plain⟩

open Production in
/-- The condition of a loop that ends with one comes last. -/
theorem Production.repeat_condition {m : Tolerance} {left right : List Tree} {t : Tree}
    (word : left ++ t :: right ∈ production m .repeatStatement)
    (condition : t.role = some .condition) : right = [] := by
  have heading : Each (fun t => t.role ≠ some .condition)
      (token .kwRepeat * Production.body) := by
    refine .mul (.one ?_) (.add .empty (.one ?_))
    · rintro t ⟨token, rfl, _⟩ role
      cases role
    · rintro t ⟨role, _⟩ other
      rw [role] at other
      cases other
  have closing : Each (fun t => t.role ≠ some .condition)
      (Production.token .kwUntil (some .closing)) := by
    refine .one ?_
    rintro t ⟨token, rfl, _⟩ role
    cases role
  have absent : Each (fun t => t.role ≠ some .condition)
      (repaired m (placeholder .kwUntil (some .closing))) := by
    refine .repaired (.one ?_)
    rintro t ⟨position, rfl⟩ role
    cases role
  obtain ⟨v, headed, w, rest, split⟩ := word
  rcases rest with ⟨x, closed, y, ⟨c, rfl, _⟩, rfl⟩ | missing
  · rcases List.eq_nil_or_concat right with rfl | ⟨rest, last, rfl⟩
    · rfl
    · have mem : t ∈ v ++ x := by
        have same : (v ++ x) ++ [c] = (left ++ t :: rest) ++ [last] := by simpa using split
        rw [(List.append_inj' same rfl).1]
        simp
      rcases List.mem_append.mp mem with mem | mem
      · exact absurd condition (heading v headed t mem)
      · exact absurd condition (closing x closed t mem)
  · have mem : t ∈ v ++ w := by
      rw [show v ++ w = left ++ t :: right from split]
      simp
    rcases List.mem_append.mp mem with mem | mem
    · exact absurd condition (heading v headed t mem)
    · exact absurd condition (absent w missing t mem)

/-! ## Programs -/

/-- At the end of the way the token is put aside, and a construct on the way takes it before it
takes its closer. -/
structure Tree.PutsAside (t : Tree) (way : List Step) (s : Step) (x : Token) : Prop where
  aside : ∃ u role, Path t way u ∧ u.nodeKind? = some .error ∧ .token role x ∈ u.children
  around : s ∈ way
  waits : x.kind ∈ s.kind.awaits
  later : ∃ c ∈ significant s.right, c.role = some .closing

/-- Whether that is so at the end of the way by the numbers `ns`, for its step of number `i` and the
first token there. -/
def Tree.putsAsideAt (t : Tree) (ns : List Nat) (i : Nat) : Bool :=
  match t.follow ns with
  | some (way, .node _ .error _ (.token _ x :: _)) =>
    way[i]?.any fun s =>
      s.kind.awaits.contains x.kind && (significant s.right).any fun c => c.role == some .closing
  | _ => false

theorem Tree.exists_putsAside {t : Tree} {ns : List Nat} {i : Nat}
    (found : t.putsAsideAt ns i = true) : ∃ way s x, t.PutsAside way s x := by
  unfold putsAsideAt at found
  split at found
  · next way _ _ role x _ follows =>
    obtain ⟨s, step, takes⟩ := (Option.any_eq_true _ _).mp found
    rw [Bool.and_eq_true, List.contains_iff_mem, List.any_eq_true] at takes
    obtain ⟨waits, c, mem, closing⟩ := takes
    exact ⟨way, s, x, ⟨_, role, path_of_follow follows, rfl, List.mem_cons_self⟩,
      List.mem_of_getElem? step, waits, c, mem, by simpa using closing⟩
  · cases found

namespace Program

theorem parseWithin_spares (limit : Nat) (tokens : List Token)
    (shallow : ∀ e ∈ (parseWithin limit tokens).2, e.kind ≠ .nestingTooDeep) :
    (parseWithin limit tokens).1.Spares [] := by
  have gained := loop_gains limit tokens
  have before := Parser.tidy_ofTokens tokens
  have after := gained.grows.tidy before
  have sparing := gained.sparing before shallow (A := []) (List.nil_subset _)
    (Frame.sparing_start _)
  refine .intro (fun error => by cases error) fun k node c child => ?_
  cases node
  rcases mem_children_finish.mp child with child | child | child
  · exact sparing c child
  · exact (after.pending c child).spares
  · exact (after.trailing c child).spares

/-- **Recovery spares what is waited for.** Unless nesting is cut off, a keyword is never put aside
where a construct around it takes it before its closer. The one exception is a condition: there the
conditional does not wait for its further branches yet. -/
theorem parse_putsAside (tokens : List Token)
    (shallow : ∀ e ∈ (parse tokens).2, e.kind ≠ .nestingTooDeep) :
    ∀ way s x, (parse tokens).1.PutsAside way s x →
      s.kind = .ifStatement ∧ s.child.role = some .condition ∧
        (x.kind = .kwElseIf ∨ x.kind = .kwElse) := by
  rintro way s x ⟨⟨u, role, path, error, skipped⟩, around, waits, later⟩
  have closing := NodeKind.awaits_closing s.kind x.kind waits
  have spared := ((parseWithin_spares maxDepth tokens shallow).of_path path error skipped rfl
    closing).2 s around
  by_cases condition : s.child.role = some .condition
  · rw [NodeKind.guards, if_pos condition] at spared
    by_cases loop : s.kind = .repeatStatement
    -- The closer of a loop stands in front of its condition.
    · have plain : ¬u.Comment := by
        rintro ⟨⟩ <;> cases error
      have lawful := parseWithin_lawful (m := .full) maxDepth tokens trivial
      obtain ⟨significant, word⟩ :=
        lawful.of_path (remarked_parseWithin maxDepth tokens) path plain s around
      have split : Tree.significant (s.left ++ s.child :: s.right) =
          Tree.significant s.left ++ s.child :: Tree.significant s.right := by
        simp [Tree.significant, significant]
      rw [loop, split] at word
      rw [Production.repeat_condition word condition] at later
      obtain ⟨c, mem, _⟩ := later
      cases mem
    · rw [if_neg loop] at spared
      obtain ⟨same, branch⟩ := (NodeKind.awaits_cases waits).resolve_left spared
      exact ⟨same, condition, branch⟩
  · rw [NodeKind.guards, if_neg condition] at spared
    exact absurd waits spared

/-- The text `while a do endloop end`. -/
theorem parse_putsAside_loop :
    let tokens : List Token := [⟨.kwWhile, "while", default⟩, ⟨.identifier, "a", default⟩,
      ⟨.kwDo, "do", default⟩, ⟨.kwEndLoop, "endloop", default⟩, ⟨.kwEnd, "end", default⟩]
    (∀ e ∈ (parse tokens).2, e.kind ≠ .nestingTooDeep) ∧
      ∀ way s x, (parse tokens).1.PutsAside way s x →
        s.kind = .ifStatement ∧ s.child.role = some .condition ∧
          (x.kind = .kwElseIf ∨ x.kind = .kwElse) := by
  intro tokens
  have shallow : ∀ e ∈ (parse tokens).2, e.kind ≠ .nestingTooDeep := by decide +kernel
  exact ⟨shallow, parse_putsAside tokens shallow⟩

/-- In the text `if function() else end then end` the exception is met. -/
theorem parse_putsAside_condition :
    ¬∀ tokens, (∀ e ∈ (parse tokens).2, e.kind ≠ .nestingTooDeep) →
      ∀ way s x, ¬(parse tokens).1.PutsAside way s x := by
  intro never
  let tokens : List Token := [⟨.kwIf, "if", default⟩, ⟨.kwFunction, "function", default⟩,
    ⟨.lParen, "(", default⟩, ⟨.rParen, ")", default⟩, ⟨.kwElse, "else", default⟩,
    ⟨.kwEnd, "end", default⟩, ⟨.kwThen, "then", default⟩, ⟨.kwEnd, "end", default⟩]
  have shallow : ∀ e ∈ (parse tokens).2, e.kind ≠ .nestingTooDeep := by decide +kernel
  have found : (parse tokens).1.putsAsideAt [0, 1, 2, 0] 1 = true := by decide +kernel
  obtain ⟨way, s, x, aside⟩ := Tree.exists_putsAside found
  exact never tokens shallow way s x aside

end Program

end JassSyntax
