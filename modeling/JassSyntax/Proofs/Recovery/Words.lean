import JassSyntax.Index.Outline
import JassSyntax.Proofs.Recovery.Constructs
import JassSyntax.Proofs.Tree.Nodes

/-!
# Words define nothing

Functions, structs, blocks of globals and variables are defined in bodies and in values. Where a
construct has a name, a type or parameters, nothing is defined, whatever is wrong with the text
there: what does not belong is put aside token by token, and is not read as an expression or a
statement.
-/

namespace JassSyntax

/-! ## Trees that define nothing -/

namespace NodeKind

/-- Nodes that an outline has entries for. -/
def defines : NodeKind → Bool
  | .functionDefinition | .structDefinition | .globalsBlock | .variableDeclaration => true
  | _ => false

/-- A child in the role can only be a name or a mark. -/
def HoldsWords (k : NodeKind) (role : Option Role) : Prop :=
  k.scope = .words ∨ k.Outside role ∧ k.holds role = .words

theorem defines_eq_false_of_scope {k : NodeKind} (words : k.scope = .words) :
    k.defines = false := by
  revert words
  cases k <;> decide

theorem holds_of_scope {k : NodeKind} (words : k.scope = .words) (role : Option Role) :
    k.holds role = .words := by
  revert words
  cases k <;> first | exact fun _ => rfl | exact fun other => Scope.noConfusion other

theorem HoldsWords.holds {k : NodeKind} {role : Option Role} (words : k.HoldsWords role) :
    k.holds role = .words :=
  words.elim (holds_of_scope · role) And.right

theorem scope_ne_words_of_closer {k : NodeKind} {closer : Kind} (closes : k.closer = some closer) :
    k.scope ≠ .words := by
  revert closes
  cases k <;> (rintro ⟨⟩ <;> exact Scope.noConfusion)

theorem scope_ne_words_of_isClause {k : NodeKind} (clause : k.isClause = true) :
    k.scope ≠ .words := by
  revert clause
  cases k <;> decide

theorem not_holdsWords {k : NodeKind} {role : Option Role} (wide : k.scope ≠ .words)
    (inside : ¬k.Outside role) : ¬k.HoldsWords role :=
  fun words => words.elim wide fun held => inside held.1

end NodeKind

theorem Scope.eq_words {s : Scope} (le : s ≤ .words) : s = .words := by
  revert le
  cases s <;> decide

namespace Tree

variable {t e : Tree}

/-- Neither the tree nor anything in it is a definition. -/
def Mute (t : Tree) : Prop := ∀ e ∈ t.elements, ∀ k, e.nodeKind? = some k → k.defines = false

/-- Nothing is defined in what can only be a name or a mark. -/
def MuteWords (t : Tree) : Prop :=
  ∀ e ∈ t.elements, ∀ k, e.nodeKind? = some k → ∀ c ∈ e.children, k.HoldsWords c.role → c.Mute

theorem Mute.of_element (h : t.Mute) (mem : e ∈ t.elements) : e.Mute :=
  fun _ below => h _ (mem_elements_trans below mem)

theorem Mute.muteWords (h : t.Mute) : t.MuteWords := fun _ mem _ _ _ child _ =>
  h.of_element (mem_elements_trans (mem_elements_of_child child) mem)

theorem mute_of_children (here : ∀ k, t.nodeKind? = some k → k.defines = false)
    (below : ∀ c ∈ t.children, c.Mute) : t.Mute := by
  intro e mem
  rcases mem_elements.mp mem with rfl | ⟨c, child, mem⟩
  · exact here
  · exact below c child e mem

theorem muteWords_of_children
    (here : ∀ k, t.nodeKind? = some k → ∀ c ∈ t.children, k.HoldsWords c.role → c.Mute)
    (below : ∀ c ∈ t.children, c.MuteWords) : t.MuteWords := by
  intro e mem
  rcases mem_elements.mp mem with rfl | ⟨c, child, mem⟩
  · exact here
  · exact below c child e mem

theorem mute_of_leaf (leaf : t.nodeKind? = none) (childless : t.children = []) : t.Mute :=
  mute_of_children (fun k node => by rw [leaf] at node; cases node)
    fun c child => by rw [childless] at child; cases child

theorem mute_token (role : Option Role) (token : Token) : (Tree.token role token).Mute :=
  mute_of_leaf rfl rfl

theorem mute_missing (role : Option Role) (kind : Kind) (place : Position) :
    (missing role kind place).Mute :=
  mute_of_leaf rfl rfl

theorem Mute.withRole (h : t.Mute) (role : Option Role) : (t.withRole role).Mute := by
  refine mute_of_children ?_ fun c child => ?_
  · rw [nodeKind?_withRole]
    exact h t (self_mem_elements t)
  · rw [children_withRole] at child
    exact h.of_element (mem_elements_of_child child)

theorem MuteWords.of_element (h : t.MuteWords) (mem : e ∈ t.elements) : e.MuteWords :=
  fun _ below => h _ (mem_elements_trans below mem)

theorem MuteWords.of_child {c : Tree} (h : t.MuteWords) (child : c ∈ t.children) : c.MuteWords :=
  h.of_element (mem_elements_of_child child)

theorem MuteWords.withRole (h : t.MuteWords) (role : Option Role) :
    (t.withRole role).MuteWords := by
  refine muteWords_of_children ?_ fun c child => ?_
  · rw [nodeKind?_withRole, children_withRole]
    exact h t (self_mem_elements t)
  · rw [children_withRole] at child
    exact h.of_child child

theorem Comment.mute (comment : t.Comment) : t.Mute := by
  intro e mem k node
  cases comment.elements e mem with
  | token => cases node
  | block =>
      cases node
      rfl

/-- A mute tree has no entries in an outline. -/
theorem Mute.outline (h : t.Mute) (source : String) : t.outline source = [] := by
  refine List.flatMap_eq_nil_iff.mpr fun e mem => ?_
  obtain ⟨mem, node⟩ := mem_descendants.mp mem
  obtain ⟨k, kind⟩ := Option.isSome_iff_exists.mp node
  have silent := h e mem k kind
  unfold definitions
  rw [kind]
  cases k <;> first | rfl | cases silent

end Tree

open JassSyntax.Tree

/-! ## Frames -/

namespace Frame

/-- So far, nothing is defined in what can only be a name or a mark. -/
def MuteWords (kind : NodeKind) (f : Frame) : Prop :=
  ∀ c ∈ f.children.toList, c.MuteWords ∧ (kind.HoldsWords c.role → c.Mute)

/-- None of the children defines anything. -/
def Mute (f : Frame) : Prop := ∀ c ∈ f.children.toList, c.Mute

variable {kind : NodeKind} {f : Frame} {t : Tree} {role : Option Role}

theorem muteWords_start (p : Parser) : (p.start kind).MuteWords kind := fun _ mem => by cases mem

theorem muteWords_of_mute {c : Tree} (mute : c.Mute) :
    c.MuteWords ∧ (kind.HoldsWords c.role → c.Mute) :=
  ⟨mute.muteWords, fun _ => mute⟩

theorem MuteWords.attach (h : f.MuteWords kind) (tidy : f.parser.Tidy) (below : t.MuteWords)
    (mute : kind.HoldsWords role → t.Mute) : (f.attach role t).MuteWords kind := by
  refine forall_children_attach (P := fun c => c.MuteWords ∧ (kind.HoldsWords c.role → c.Mute))
    tidy (fun _ comment => muteWords_of_mute comment.mute) h ⟨below.withRole role, ?_⟩
  rw [role_withRole]
  exact fun words => (mute words).withRole role

theorem MuteWords.bump (h : f.MuteWords kind) (tidy : f.parser.Tidy) :
    (f.bump role).MuteWords kind :=
  forall_children_bump tidy (fun _ comment => muteWords_of_mute comment.mute) h
    fun _ _ => muteWords_of_mute (mute_token _ _)

theorem MuteWords.close (h : f.MuteWords kind) (tidy : f.parser.Tidy) {closer : Kind}
    (closes : f.kind.closer = some closer) : f.close.MuteWords kind :=
  forall_children_close closes tidy (fun _ comment => muteWords_of_mute comment.mute) h
    (fun _ => muteWords_of_mute (mute_token _ _)) fun _ => muteWords_of_mute (mute_missing _ _ _)

theorem MuteWords.finish (h : f.MuteWords kind) (same : f.kind = kind) :
    f.finish.1.MuteWords ∧ (kind.scope = .words → f.finish.1.Mute) := by
  have children : f.finish.1.children = f.children.toList := rfl
  have node : f.finish.1.nodeKind? = some kind := congrArg some same
  constructor
  · refine muteWords_of_children (fun k named => ?_) ?_ <;> rw [children]
    · rw [node] at named
      cases named
      exact fun c child => (h c child).2
    · exact fun c child => (h c child).1
  · intro words
    refine mute_of_children (fun k named => ?_) ?_
    · rw [node] at named
      cases named
      exact NodeKind.defines_eq_false_of_scope words
    · rw [children]
      exact fun c child => (h c child).2 (.inl words)

theorem Mute.bump (h : f.Mute) (tidy : f.parser.Tidy) : (f.bump role).Mute :=
  forall_children_bump tidy (fun _ comment => comment.mute) h fun _ _ => mute_token _ _

theorem Mute.bumps (h : f.Mute) (tidy : f.parser.Tidy) (n : Nat) : (f.bumps n).Mute := by
  induction n generalizing f with
  | zero => exact h
  | succ n ih => exact ih (h.bump tidy) (tidy_bump tidy none)

theorem Mute.finish (h : f.Mute) (error : f.kind = .error) : f.finish.1.Mute := by
  refine mute_of_children (fun k node => ?_) h
  obtain rfl : f.kind = k := Option.some.inj node
  rw [error]
  rfl

/-- Tokens that are put aside define nothing. -/
theorem mute_aside {p : Parser} (tidy : p.Tidy) (n : Nat) :
    ((p.start .error).bumps n).finish.1.Mute :=
  Mute.finish (Mute.bumps (f := p.start .error) (fun _ mem => by cases mem) tidy n)
    (kind_bumps _ _)

end Frame

/-! ## Courses -/

mutual

/-- What is read as words defines nothing, and neither do words within what is read. -/
theorem Forms.muteWords : ∀ {s : Scope} {p q : Parser} {t : Tree}, Forms s p t q → p.Tidy →
    t.MuteWords ∧ (s = .words → t.Mute)
  | _, p, _, _, .leaf here _, _ => by
      simp only [Parser.takeLeaf, here]
      exact ⟨(mute_token _ _).muteWords, fun _ => mute_token _ _⟩
  | _, p, _, _, .string _ gained _, tidy => by
      have words := gained.muteWords tidy (Frame.muteWords_start p)
      obtain ⟨below, mute⟩ := words.finish gained.grows.kind
      exact ⟨below, fun _ => mute rfl⟩
  | _, p, _, _, .node kind _ within gained, tidy => by
      have words := gained.muteWords tidy (Frame.muteWords_start p)
      obtain ⟨below, mute⟩ := words.finish gained.grows.kind
      exact ⟨below, fun same => mute (Scope.eq_words (same ▸ within))⟩
  | _, p, _, _, .around (q := q) kind _ within first held outside gained, tidy => by
      have after := first.reads.tidy tidy
      obtain ⟨inner, narrow⟩ := first.muteWords tidy
      have begun : ((q.start kind).attach _ _).MuteWords kind :=
        (Frame.muteWords_start q).attach after inner fun words =>
          narrow (Scope.eq_words (words.holds ▸ held))
      have words := gained.muteWords (Frame.tidy_attach after _ _) begun
      obtain ⟨below, mute⟩ := words.finish gained.grows.kind
      exact ⟨below, fun same => mute (Scope.eq_words (same ▸ within))⟩
  | _, p, _, _, .block (g := g) (h := h) kind closes _ within heading inside _ behind _ _,
      tidy => by
      have frames := tidy.encloses closes heading inside
      have wide := NodeKind.scope_ne_words_of_closer closes
      have headed := heading.muteWords (Frame.tidy_bump tidy _)
        ((Frame.muteWords_start p).bump tidy)
      have filled := inside.muteWords ⟨frames.before.pending, frames.before.ahead,
        frames.before.trailing⟩ wide headed
      have closed : (g.left h).MuteWords kind := Frame.MuteWords.close
        (f := { h with parser := h.parser.leaveBlock g.parser.openClosers.length }) filled
        ⟨frames.after.pending, frames.after.ahead, frames.after.trailing⟩
        (frames.kind_after ▸ closes)
      have words := behind.muteWords frames.left closed
      refine ⟨(words.finish ?_).1, fun same => absurd (Scope.eq_words (same ▸ within)) wide⟩
      rw [behind.grows.kind, Frame.left, Frame.kind_close]
      exact frames.kind_after
  | _, p, _, _, .clause kind clause heading inside, tidy => by
      have headed := heading.muteWords tidy (Frame.muteWords_start p)
      have filled := inside.muteWords (heading.grows.tidy tidy)
        (NodeKind.scope_ne_words_of_isClause clause) headed
      refine ⟨(filled.finish (inside.grows.kind.trans heading.grows.kind)).1, fun other => ?_⟩
      cases other
  | _, _, _, _, .absent _, _ => ⟨(mute_missing _ _ _).muteWords, fun _ => mute_missing _ _ _⟩
  | _, p, _, _, .mark (c := c) _ _, tidy =>
      have mute := Frame.mute_aside (tidy.complainAt p.span c) 1
      ⟨mute.muteWords, fun _ => mute⟩
  | _, p, _, _, .stray (c := c) _ _ within gained, tidy => by
      have begun := Frame.tidy_bump (f := (p.complain c).start .error) (tidy.complainAt _ _) none
      have words := gained.muteWords begun
        ((Frame.muteWords_start (p.complain c)).bump (tidy.complainAt _ _))
      refine ⟨(words.finish (gained.grows.kind.trans (Frame.kind_bump _ _))).1, ?_⟩
      rintro rfl
      exact absurd within (by decide)
  | _, p, _, _, .aside (c := c) _ _ _ _, tidy =>
      have mute := Frame.mute_aside (tidy.complainAt p.span c) 1
      ⟨mute.muteWords, fun _ => mute⟩
  | _, _, _, _, .tooDeep (n := n) limit _ _, tidy =>
      have mute := Frame.mute_aside (tidy.complainTooDeep limit) (n + 1)
      ⟨mute.muteWords, fun _ => mute⟩
  | _, _, _, _, .absentTooDeep _, _ =>
      ⟨(mute_missing _ _ _).muteWords, fun _ => mute_missing _ _ _⟩
  | _, _, _, _, .noticing read, tidy =>
      read.muteWords ⟨tidy.pending, tidy.ahead, tidy.trailing⟩
  | _, _, _, _, .nested read, tidy =>
      read.muteWords ⟨tidy.pending, tidy.ahead, tidy.trailing⟩

theorem Gains.muteWords : ∀ {kind : NodeKind} {f g : Frame}, Gains kind f g → f.parser.Tidy →
    f.MuteWords kind → g.MuteWords kind
  | _, _, _, .refl _, _, h => h
  | _, _, _, .bump gained _ _ _, tidy, h =>
      (gained.muteWords tidy h).bump (gained.grows.tidy tidy)
  | _, _, _, .attach (g := g) (q := q) gained read held _, tidy, h => by
      have before := gained.grows.tidy tidy
      obtain ⟨below, narrow⟩ := read.muteWords before
      exact Frame.MuteWords.attach (f := { g with parser := q }) (gained.muteWords tidy h)
        (read.reads.tidy before) below fun words => narrow (Scope.eq_words (words.holds ▸ held))
  | _, _, _, .notice gained, tidy, h => gained.muteWords tidy h

/-- Bodies and branches are no words. -/
theorem Fills.muteWords : ∀ {f g : Frame}, Fills f g → f.parser.Tidy →
    ∀ {kind : NodeKind}, kind.scope ≠ .words → f.MuteWords kind → g.MuteWords kind
  | _, _, .refl _, _, _, _, h => h
  | _, _, .body (g := g) (q := q) filled read _, tidy, _, wide, h => by
      have before := filled.grows.tidy tidy
      exact Frame.MuteWords.attach (f := { g with parser := q }) (filled.muteWords tidy wide h)
        (read.reads.tidy before) (read.muteWords before).1
        fun words => absurd words (NodeKind.not_holdsWords wide fun outside => outside.1 rfl)
  | _, _, .clause (g := g) (q := q) filled read _ _, tidy, _, wide, h => by
      have before := filled.grows.tidy tidy
      exact Frame.MuteWords.attach (f := { g with parser := q }) (filled.muteWords tidy wide h)
        (read.reads.tidy before) (read.muteWords before).1
        fun words => absurd words (NodeKind.not_holdsWords wide fun outside => outside.2.1 rfl)
  | _, _, .nested filled inside, tidy, _, wide, h => by
      have before := filled.grows.tidy tidy
      exact inside.muteWords ⟨before.pending, before.ahead, before.trailing⟩ wide
        (filled.muteWords tidy wide h)
  | _, _, .tooDeep _ filled _ _, tidy, _, wide, h => filled.muteWords tidy wide h

end

/-! ## Programs -/

/-- Names, types, parameters and marks of a program define nothing. -/
theorem Program.parseWithin_muteWords (limit : Nat) (tokens : List Token) :
    (parseWithin limit tokens).1.MuteWords := by
  have gained := loop_gains limit tokens
  have before := Parser.tidy_ofTokens tokens
  have after := gained.grows.tidy before
  have words := gained.muteWords before (Frame.muteWords_start _)
  have children : ∀ c ∈ (parseWithin limit tokens).1.children,
      c.MuteWords ∧ (NodeKind.program.HoldsWords c.role → c.Mute) := by
    intro c child
    rcases mem_children_finish.mp child with child | child | child
    · exact words c child
    · exact Frame.muteWords_of_mute (after.pending c child).mute
    · exact Frame.muteWords_of_mute (after.trailing c child).mute
  refine muteWords_of_children (fun k node c child => ?_) fun c child => (children c child).1
  cases node
  exact (children c child).2

end JassSyntax
