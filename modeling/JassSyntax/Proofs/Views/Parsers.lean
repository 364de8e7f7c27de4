import JassSyntax.Proofs.Simulation.Statements
import JassSyntax.Proofs.Views.Trees

/-!
# Parsers that look alike

Two parsers look alike in a view if all that they carry does: what is ahead, what has been
complained about, and where. The grammar decides by kinds alone, so every move keeps parsers and
frames alike. That makes a view a simulation.
-/

namespace JassSyntax

namespace View

variable (v : View)

def item (i : Item) : Item := ⟨v.trees i.comments, v.token i.token⟩

def error (e : ParseError) : ParseError := { e with span := v.span e.span }

variable {v}

theorem kind_of_item {i j : Item} (same : v.item j = v.item i) : j.token.kind = i.token.kind :=
  show (v.item j).token.kind = (v.item i).token.kind from congrArg (·.token.kind) same

end View

variable {v : View}

/-- The two carry the same as far as it is seen. -/
structure Parser.Alike (v : View) (p q : Parser) : Prop where
  ahead : q.ahead.toList.map v.item = p.ahead.toList.map v.item
  trailing : v.trees q.trailing = v.trees p.trailing
  eof : q.eof.map v.token = p.eof.map v.token
  noticed : q.endNoticedAt.map v.place = p.endNoticedAt.map v.place
  pending : v.trees q.pending = v.trees p.pending
  errors : q.errors.toList.map v.error = p.errors.toList.map v.error
  openClosers : q.openClosers = p.openClosers
  lastEnd : v.place q.lastEnd = v.place p.lastEnd
  depth : q.depth = p.depth

/-- The nodes under construction look alike, and so do their parsers. -/
structure Frame.Alike (v : View) (f g : Frame) : Prop where
  kind : g.kind = f.kind
  opener : v.span g.opener = v.span f.opener
  children : v.trees g.children.toList = v.trees f.children.toList
  parser : f.parser.Alike v g.parser

/-- What has been read looks alike. -/
structure Tree.AlikeWith (v : View) (e r : Tree × Parser) : Prop where
  tree : v.tree r.1 = v.tree e.1
  parser : e.2.Alike v r.2

/-! ## Parsers -/

namespace Parser.Alike

variable {p q : Parser}

/-- Either nothing is ahead of both, or items that look alike. -/
theorem head_cases (h : p.Alike v q) :
    p.ahead.head? = none ∧ q.ahead.head? = none ∨
      ∃ i j, p.ahead.head? = some i ∧ q.ahead.head? = some j ∧ v.item j = v.item i := by
  have heads := congrArg List.head? h.ahead
  rw [List.head?_map, List.head?_map] at heads
  unfold Counted.head?
  cases first : p.ahead.toList.head? with
  | none =>
      rw [first] at heads
      exact .inl ⟨rfl, Option.map_eq_none_iff.mp heads⟩
  | some i =>
      rw [first] at heads
      obtain ⟨j, second, same⟩ := Option.map_eq_some_iff.mp heads
      exact .inr ⟨i, j, rfl, second, same⟩

theorem tail (h : p.Alike v q) :
    { p with ahead := p.ahead.tail }.Alike v { q with ahead := q.ahead.tail } :=
  { h with
    ahead :=
      (List.map_tail ..).trans ((congrArg List.tail h.ahead).trans (List.map_tail ..).symm) }

theorem kind (h : p.Alike v q) : q.kind = p.kind := by
  unfold Parser.kind
  rcases h.head_cases with ⟨first, second⟩ | ⟨i, j, first, second, same⟩ <;> rw [first, second]
  exact View.kind_of_item same

theorem second_fst (h : p.Alike v q) : q.second.1 = p.second.1 := by
  unfold Parser.second
  rcases h.tail.head_cases with ⟨first, second⟩ | ⟨i, j, first, second, same⟩ <;>
    rw [first, second]
  exact View.kind_of_item same

theorem agrees (h : p.Alike v q) : p.Agrees q where
  kind := h.kind
  second := h.second_fst
  openClosers := h.openClosers
  remaining := by
    have length := congrArg List.length h.ahead
    rw [List.length_map, List.length_map] at length
    rw [remaining, remaining, p.ahead.length_eq, q.ahead.length_eq, length]

/-- Where the end has been met first, or would be met now. -/
theorem noticedAt (h : p.Alike v q) :
    v.place (q.endNoticedAt.getD q.lastEnd) = v.place (p.endNoticedAt.getD p.lastEnd) := by
  rw [← Option.getD_map v.place, ← Option.getD_map v.place, h.noticed, h.lastEnd]

theorem endSpan (h : p.Alike v q) : v.span q.endSpan = v.span p.endSpan := by
  have eof := h.eof
  unfold Parser.endSpan
  cases first : p.eof with
  | some t =>
      rw [first] at eof
      obtain ⟨u, second, same⟩ := Option.map_eq_some_iff.mp eof
      rw [second]
      exact congrArg Token.span same
  | none =>
      rw [first] at eof
      rw [Option.map_eq_none_iff.mp eof]
      exact congrArg Span.empty h.noticedAt

theorem span (h : p.Alike v q) : v.span q.span = v.span p.span := by
  unfold Parser.span
  rcases h.head_cases with ⟨first, second⟩ | ⟨i, j, first, second, same⟩ <;> rw [first, second]
  · exact h.endSpan
  · exact congrArg (fun i : Item => i.token.span) same

theorem missing (h : p.Alike v q) (k : Kind) : v.tree (q.missing k) = v.tree (p.missing k) := by
  rw [Parser.missing, Parser.missing, View.tree, View.tree, h.lastEnd]

theorem noticeEnd (h : p.Alike v q) : p.noticeEnd.Alike v q.noticeEnd :=
  { h with noticed := congrArg some h.noticedAt }

theorem second (h : p.Alike v q) : p.second.2.Alike v q.second.2 := by
  unfold Parser.second
  rcases h.tail.head_cases with ⟨first, second⟩ | ⟨i, j, first, second, same⟩ <;>
    rw [first, second]
  · exact h.noticeEnd
  · exact h

/-- Both go past items that look alike. -/
theorem advance (h : p.Alike v q) {i j : Item} (same : v.item j = v.item i) :
    (p.advance i).Alike v (q.advance j) :=
  { h.tail with lastEnd := congrArg (fun i : Item => i.token.span.stop) same }

theorem complainAt (h : p.Alike v q) {s t : Span} (same : v.span t = v.span s) (c : Complaint) :
    (p.complainAt s c).Alike v (q.complainAt t c) := by
  refine { h with errors := ?_ }
  simp only [Parser.complainAt, Array.toList_push, List.map_append, h.errors, h.kind]
  show _ ++ [(c.toError (v.span t) p.kind : ParseError)] = _ ++ [c.toError (v.span s) p.kind]
  rw [same]

theorem complain (h : p.Alike v q) (c : Complaint) : (p.complain c).Alike v (q.complain c) :=
  h.complainAt h.span c

theorem withPending (h : p.Alike v q) {ts us : List Tree} (same : v.trees us = v.trees ts) :
    { p with pending := ts }.Alike v { q with pending := us } :=
  { h with pending := same }

theorem withDepth (h : p.Alike v q) (n : Nat) :
    { p with depth := n }.Alike v { q with depth := n } :=
  { h with depth := rfl }

theorem enterBlock (h : p.Alike v q) (closers : List Kind) :
    (p.enterBlock closers).Alike v (q.enterBlock closers) :=
  { h with openClosers := congrArg (· ++ closers) h.openClosers }

theorem leaveBlock (h : p.Alike v q) (mark : Nat) :
    (p.leaveBlock mark).Alike v (q.leaveBlock mark) :=
  { h with openClosers := congrArg (List.take mark) h.openClosers }

theorem ascend (h : p.Alike v q) : p.ascend.Alike v q.ascend :=
  { h with depth := congrArg (· - 1) h.depth }

theorem takeLeaf (h : p.Alike v q) : Tree.AlikeWith v p.takeLeaf q.takeLeaf := by
  unfold Parser.takeLeaf
  rcases h.head_cases with ⟨first, second⟩ | ⟨i, j, first, second, same⟩ <;> rw [first, second]
  · exact ⟨h.missing .eof, h⟩
  · have token : v.token j.token = v.token i.token := congrArg Item.token same
    have comments : v.trees j.comments = v.trees i.comments := congrArg Item.comments same
    refine ⟨?_, (h.advance same).withPending ?_⟩
    · rw [View.tree, View.tree, token]
    · rw [View.trees_append, View.trees_append, h.pending, comments]

end Parser.Alike

/-! ## Frames -/

/-- What looks alike is seen or passed over alike, in whatever role. -/
theorem View.trees_singleton_congr {t u : Tree} (same : v.tree u = v.tree t) :
    v.trees [u] = v.trees [t] := by
  rw [trees_singleton, trees_singleton, same]

namespace Frame.Alike

variable {f g : Frame}

theorem start {p q : Parser} (k : NodeKind) (h : p.Alike v q) :
    (p.start k).Alike v (q.start k) :=
  ⟨rfl, h.span, rfl, h⟩

theorem withParser (h : f.Alike v g) {p q : Parser} (same : p.Alike v q) :
    { f with parser := p }.Alike v { g with parser := q } :=
  ⟨h.kind, h.opener, h.children, same⟩

theorem flush (h : f.Alike v g) : f.flush.Alike v g.flush := by
  refine ⟨h.kind, h.opener, ?_, h.parser.withPending rfl⟩
  rw [children_flush, children_flush, View.trees_append, View.trees_append, h.children,
    h.parser.pending]

theorem attach (h : f.Alike v g) (role : Option Role) {t u : Tree} (same : v.tree u = v.tree t) :
    (f.attach role t).Alike v (g.attach role u) := by
  refine ⟨h.kind, h.opener, ?_, h.flush.parser⟩
  have last : v.trees [u.withRole role] = v.trees [t.withRole role] :=
    View.trees_singleton_congr (by rw [View.tree_withRole, View.tree_withRole, same])
  simp only [children_attach, View.trees_append, h.children, h.parser.pending, last]

theorem bump (h : f.Alike v g) (role : Option Role) : (f.bump role).Alike v (g.bump role) := by
  rcases h.parser.head_cases with ⟨first, second⟩ | ⟨i, j, first, second, same⟩
  · rw [bump_of_none first, bump_of_none second]
    exact h.flush
  · have token : v.token j.token = v.token i.token := congrArg Item.token same
    have comments : v.trees j.comments = v.trees i.comments := congrArg Item.comments same
    have last : v.trees [.token role j.token] = v.trees [.token role i.token] :=
      View.trees_singleton_congr (by rw [View.tree, View.tree, token])
    refine ⟨?_, ?_, ?_, ?_⟩
    · rw [kind_bump, kind_bump, h.kind]
    · rw [bump_eq first, bump_eq second]
      exact h.opener
    · simp only [children_bump first, children_bump second, View.trees_append, h.children,
        h.parser.pending, comments, last]
    · rw [bump_eq first, bump_eq second]
      exact (h.parser.advance same).withPending rfl

theorem bumps (h : f.Alike v g) (n : Nat) : (f.bumps n).Alike v (g.bumps n) := by
  induction n generalizing f g with
  | zero => exact h
  | succ n ih => exact ih (h.bump none)

theorem finish (h : f.Alike v g) : Tree.AlikeWith v f.finish g.finish := by
  refine ⟨?_, h.parser⟩
  show v.tree (.ofChildren g.kind _ _) = v.tree (.ofChildren f.kind _ _)
  rw [View.tree_ofChildren, View.tree_ofChildren, h.kind, h.children]

/-- A child that looks alike, with the parser behind it. -/
theorem child (h : f.Alike v g) (role : Option Role) {read read' : Parser → Tree × Parser}
    (each : Tree.AlikeWith v (read f.parser) (read' g.parser)) :
    (f.child role read).Alike v (g.child role read') :=
  (h.withParser each.parser).attach role each.tree

theorem complain (h : f.Alike v g) (c : Complaint) : (f.complain c).Alike v (g.complain c) :=
  h.withParser (h.parser.complain c)

theorem skipAsError (h : f.Alike v g) : f.skipAsError.Alike v g.skipAsError :=
  h.child none ((start .error h.parser).bump none).finish

theorem insertMissing (h : f.Alike v g) (role : Option Role) (k : Kind) :
    (f.insertMissing role k).Alike v (g.insertMissing role k) :=
  h.attach role (h.parser.missing k)

/-- Who is to blame for a missing closer looks alike too. -/
theorem close (h : f.Alike v g) : f.close.Alike v g.close := by
  have kind := h.kind
  unfold Frame.close
  cases closes : f.kind.closer with
  | none => simpa only [kind, closes] using h
  | some closer =>
      simp only [show g.kind.closer = some closer from kind ▸ closes,
        show g.current = f.current from h.parser.kind,
        show Complaint.unclosed g.kind closer = .unclosed f.kind closer from by rw [kind]]
      split
      · exact h.bump _
      · have anchor : v.span (if f.current = .eof then blamed g.opener g.children.toList closer
              else g.opener) =
            v.span (if f.current = .eof then blamed f.opener f.children.toList closer
              else f.opener) := by
          split
          · rw [← View.blamed_trees, ← View.blamed_trees, h.opener, h.children]
          · exact h.opener
        exact (h.withParser (h.parser.complainAt anchor _)).insertMissing _ _

theorem left {h h' : Frame} (outside : f.Alike v g) (inside : h.Alike v h') :
    (f.left h).Alike v (g.left h') := by
  unfold Frame.left
  rw [outside.parser.openClosers]
  exact (inside.withParser (inside.parser.leaveBlock _)).close

end Frame.Alike

/-- Reading keeps alike what looks alike. -/
def View.simulation (v : View) : Simulation where
  Parsers := Parser.Alike v
  Frames := Frame.Alike v
  Results _ := Tree.AlikeWith v
  excess := 0
  agrees h := h.agrees.matched
  counting h _ rest := rest h.parser.agrees.matched h.kind
  covering h _ rest := rest h.parser.agrees.matched
  start k h := .start k h
  look h _ := h.second
  second h _ := h.withParser h.parser.second
  bump role h _ := h.bump role
  child h _ _ each := h.child _ (each h.parser)
  item h _ _ _ each := (h.bump none).child none (each (h.bump none).parser)
  wrap h _ := (Frame.Alike.start _ h.parser).attach _ h.tree
  finish h := h.finish
  leaf h _ := h.takeLeaf
  block outside _ _ _ _ each _ rest := by
    have inside := each (outside.withParser (outside.parser.enterBlock _))
    exact rest inside.parser.agrees.matched (outside.left inside)
  skip c h _ := (h.complain c).skipAsError
  repair c role k h := (h.complain c).insertMissing role k
  absent c k h := ⟨h.missing k, h.complain c⟩
  stray c h _ := (Frame.Alike.start .error (h.complain c)).bump none
  unended more := absurd more (Nat.lt_irrefl 0)

end JassSyntax
