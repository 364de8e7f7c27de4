import JassSyntax.Proofs.Reading.Conservation
import JassSyntax.Proofs.Views.Trees

/-!
# What complaints point at

A complaint points at the current token, or at the beginning of a construct that is to blame for a
closer that is not there. That construct is the one being read, or one that lies in it. So whatever
is complained about while something is read, was ahead before, or is the end of input.
-/

namespace JassSyntax

open JassSyntax.Tree

variable {A : Span → Prop}

namespace Tree

/-- All tokens of the tree, comments aside, have their spans in `A`. -/
def Within (A : Span → Prop) (t : Tree) : Prop := ∀ x ∈ t.leaves, x.isTrivia = false → A x.span

theorem leaves_subset_of_mem_elements {e t : Tree} (mem : e ∈ t.elements) :
    e.leaves ⊆ t.leaves := by
  induction t using children_induction with
  | step t ih =>
      rcases mem_elements.mp mem with rfl | ⟨c, child, below⟩
      · exact List.Subset.refl _
      · intro x leaf
        have inside := ih c child below leaf
        cases t with
        | token | missing => cases child
        | node => exact mem_leavesAll.mpr ⟨c, child, inside⟩

theorem Within.of_element {e t : Tree} (h : t.Within A) (mem : e ∈ t.elements) : e.Within A :=
  fun x leaf => h x (leaves_subset_of_mem_elements mem leaf)

theorem Within.of_child {c t : Tree} (h : t.Within A) (child : c ∈ t.children) : c.Within A :=
  h.of_element (mem_elements_of_child child)

mutual

/-- The first token of a tree is one of its tokens, and no comment. -/
theorem leadingToken?_mem : ∀ {t : Tree} {x : Token}, t.leadingToken? = some x →
    x ∈ t.leaves ∧ x.isTrivia = false
  | .token _ y, x, h => by
      rw [leadingToken?] at h
      split at h
      · cases h
      · next plain =>
        cases h
        exact ⟨List.mem_singleton.mpr rfl, by simpa using plain⟩
  | .missing .., _, h => by cases h
  | .node _ k _ cs, x, h => by
      rw [leadingToken?] at h
      split at h
      · cases h
      · exact leadingTokenOf?_mem h

theorem leadingTokenOf?_mem : ∀ {ts : List Tree} {x : Token}, leadingTokenOf? ts = some x →
    x ∈ leavesAll ts ∧ x.isTrivia = false
  | [], _, h => by cases h
  | t :: ts, x, h => by
      rw [leadingTokenOf?] at h
      rw [leavesAll_cons]
      cases first : t.leadingToken? with
      | some y =>
          rw [first] at h
          cases h
          exact (leadingToken?_mem first).imp_left (List.mem_append_left _)
      | none =>
          rw [first] at h
          exact (leadingTokenOf?_mem h).imp_left (List.mem_append_right _)

end

theorem Within.firstToken? {t : Tree} (h : t.Within A) {x : Token}
    (first : t.firstToken? = some x) : A x.span := by
  obtain ⟨mem, plain⟩ := leadingTokenOf?_mem first
  cases t with
  | token | missing => cases mem
  | node => exact h x mem plain

end Tree

/-! ## Whom to blame -/

/-- Suspicion stays with what is in the construct. -/
theorem Suspect.inward_within {closer : Kind} {s : Suspect} (opener : A s.opener)
    (body : ∀ b, s.body = some b → b.Within A) :
    A (s.inward closer).1.opener ∧ ∀ b, (s.inward closer).1.body = some b → b.Within A := by
  unfold inward
  split
  · next last found =>
    split
    · obtain ⟨b, suspected, found⟩ := Option.bind_eq_some_iff.mp found
      have inside := (body b suspected).of_child (Tree.mem_children_of_lastStatement? found)
      refine ⟨?_, fun c ends => ?_⟩
      · cases first : last.firstToken? with
        | none => exact opener
        | some x => exact inside.firstToken? first
      · have mem := trailingBodyOf?_mem ends
        rw [elementsAll_eq_flatMap, List.mem_flatMap] at mem
        obtain ⟨d, child, mem⟩ := mem
        exact (inside.of_child child).of_element mem
    · exact ⟨opener, body⟩
  · exact ⟨opener, body⟩

theorem blamed_within {opener : Span} {children : List Tree} {closer : Kind} (here : A opener)
    (below : ∀ c ∈ children, c.Within A) : A (blamed opener children closer) := by
  refine Loop.run_rule (P := fun s : Suspect => A s.opener ∧ ∀ b, s.body = some b → b.Within A)
    (Q := fun s : Suspect => A s.opener) (fun s h _ => Suspect.inward_within h.1 h.2)
    (fun s h _ => (Suspect.inward_within h.1 h.2).1)
    (fun s h _ _ => (Suspect.inward_within h.1 h.2).1) ⟨here, fun b ends => ?_⟩
  have mem := trailingBodyOf?_mem ends
  rw [elementsAll_eq_flatMap, List.mem_flatMap] at mem
  obtain ⟨c, child, mem⟩ := mem
  exact (below c child).of_element mem

/-! ## Parsers and frames -/

namespace Parser

/-- All that is ahead has its span in `A`, the end of input included. -/
structure Within (A : Span → Prop) (p : Parser) : Prop where
  ahead : ∀ item ∈ p.ahead.toList, A item.token.span
  eof : ∃ last, p.eof = some last ∧ A last.span

/-- All that is complained about in between is in `A`. -/
def Points (A : Span → Prop) (p q : Parser) : Prop :=
  ∃ new, q.errors.toList = p.errors.toList ++ new ∧ ∀ e ∈ new, A e.span

variable {p q r : Parser}

theorem Within.later (h : p.Within A) (later : p.Later q) : q.Within A where
  ahead item mem := h.ahead item (later.ahead.subset mem)
  eof := by rw [later.eof]; exact h.eof

theorem Within.span (h : p.Within A) : A p.span := by
  unfold Parser.span
  split
  · next item here => exact h.ahead item (List.mem_of_head? here)
  · obtain ⟨last, eof, within⟩ := h.eof
    rw [endSpan, eof]
    exact within

/-- What has not found its place yet is in `A`, comments aside. -/
theorem Within.unplaced (h : p.Within A) (tidy : p.Tidy) :
    ∀ x ∈ p.unplaced, x.isTrivia = false → A x.span := by
  intro x mem plain
  rcases List.mem_append.mp mem with mem | mem
  · obtain ⟨t, waiting, leaf⟩ := mem_leavesAll.mp mem
    rw [(tidy.pending t waiting).leaves_trivia x leaf] at plain
    cases plain
  · obtain ⟨item, ahead, leaf⟩ := List.mem_flatMap.mp mem
    rcases List.mem_append.mp leaf with leaf | leaf
    · obtain ⟨t, comment, leaf⟩ := mem_leavesAll.mp leaf
      rw [((tidy.ahead item ahead).comments t comment).leaves_trivia x leaf] at plain
      cases plain
    · rw [List.mem_singleton.mp leaf]
      exact h.ahead item ahead

theorem points_of_errors (same : q.errors = p.errors) : p.Points A q :=
  ⟨[], by rw [same, List.append_nil], by simp⟩

theorem Points.trans (first : p.Points A q) (second : q.Points A r) : p.Points A r := by
  obtain ⟨s, before, early⟩ := first
  obtain ⟨t, after, late⟩ := second
  refine ⟨s ++ t, by rw [after, before, List.append_assoc], fun e mem => ?_⟩
  rcases List.mem_append.mp mem with mem | mem
  · exact early e mem
  · exact late e mem

theorem points_complainAt {s : Span} (within : A s) (p : Parser) (c : Complaint) :
    p.Points A (p.complainAt s c) := by
  refine ⟨[c.toError s p.kind], Array.toList_push, fun e mem => ?_⟩
  rw [List.mem_singleton.mp mem]
  exact within

theorem Within.points_complain (h : p.Within A) (c : Complaint) : p.Points A (p.complain c) :=
  points_complainAt h.span p c

theorem Within.points_complainTooDeep (h : p.Within A) (limit : Nat) :
    p.Points A (Level.complainTooDeep limit p) := by
  rcases Level.complainTooDeep_cases limit p with e | e <;> rw [e]
  · exact points_of_errors rfl
  · exact h.points_complain _

end Parser

namespace Frame

/-- The node began in `A`, and all that is in it or ahead is in `A`. -/
structure Within (A : Span → Prop) (f : Frame) : Prop where
  opener : A f.opener
  parser : f.parser.Within A
  held : ∀ x ∈ f.held, x.isTrivia = false → A x.span

variable {f g : Frame}

theorem within_start {p : Parser} (h : p.Within A) (tidy : p.Tidy) (kind : NodeKind) :
    (p.start kind).Within A :=
  ⟨h.span, h, h.unplaced tidy⟩

theorem Within.children (h : f.Within A) : ∀ c ∈ f.children.toList, c.Within A :=
  fun c child x leaf =>
    h.held x (List.mem_append_left _ (mem_leavesAll.mpr ⟨c, child, leaf⟩))

theorem opener_bump (f : Frame) (role : Option Role) : (f.bump role).opener = f.opener := by
  unfold bump
  dsimp only
  split <;> rfl

theorem opener_close (f : Frame) : f.close.opener = f.opener := by
  cases closes : f.kind.closer with
  | none =>
      unfold close
      rw [closes]
  | some closer =>
      rcases close_cases closes with ⟨_, h⟩ | ⟨_, span, h⟩ <;> rw [h]
      · exact f.opener_bump _
      · rfl

end Frame

theorem Grows.opener : ∀ {f g : Frame}, Grows f g → g.opener = f.opener
  | _, _, .refl _ => rfl
  | _, _, .bump grown => (Frame.opener_bump _ _).trans grown.opener
  | _, _, .attach grown _ | _, _, .notice grown | _, _, .drop grown _ _
  | _, _, .tooDeep grown _ _ => grown.opener
  | _, _, .nested grown inside => inside.opener.trans grown.opener
  | _, _, .block grown _ _ _ inside =>
      (Frame.opener_close _).trans (inside.opener.trans grown.opener)

/-- What a frame holds stays in `A`. -/
theorem Grows.within {f g : Frame} (grown : Grows f g) (h : f.Within A) : g.Within A where
  opener := grown.opener ▸ h.opener
  parser := h.parser.later grown.later
  held := grown.held_conserved ▸ h.held

theorem Frame.points_close {f : Frame} (h : f.Within A) {closer : Kind}
    (closes : f.kind.closer = some closer) : f.parser.Points A f.close.parser := by
  unfold close
  rw [closes]
  dsimp only
  split
  · exact Parser.points_of_errors (f.errors_bump _)
  · refine Parser.points_complainAt (s := if f.current = .eof then _ else _) ?_ f.parser _
    split
    · exact blamed_within h.opener h.children
    · exact h.opener

mutual

/-- Whatever is complained about while a tree is read was ahead. -/
theorem Reads.points : ∀ {p q : Parser} {t : Tree}, Reads p t q → p.Tidy → p.Within A → p.Points A q
  | p, _, _, .leaf here, _, _ =>
      Parser.points_of_errors (by simp only [Parser.takeLeaf, here]; rfl)
  | p, _, _, .node kind _ grown, tidy, h => grown.points tidy (Frame.within_start h tidy kind)
  | p, _, _, .around (q := q) kind _ first grown, tidy, h => by
      have after := first.tidy tidy
      have inside := h.later first.later
      refine (first.points tidy h).trans (grown.points (Frame.tidy_attach after _ _) ⟨?_, ?_, ?_⟩)
      · exact inside.span
      · exact ⟨inside.ahead, inside.eof⟩
      · rw [Frame.held_attach]
        have all := h.unplaced tidy
        rw [← first.leaves_conserved] at all
        exact all
  | p, _, _, .absent, _, h => h.points_complain _
  | p, _, _, .stray (c := c) _ grown, tidy, h => by
      have told := tidy.complainAt p.span c
      have begun := Frame.within_start (h.later (p.later_complainAt p.span c)) told .error
      have taken : Grows ((p.complain c).start .error) ((p.complain c).start .error).bump :=
        (Grows.refl _).bump
      have bumped : (p.complain c).Points A (((p.complain c).start .error).bump).parser :=
        Parser.points_of_errors (Frame.errors_bump _ _)
      exact ((h.points_complain c).trans bumped).trans
        (grown.points (Frame.tidy_bump told none) (taken.within begun))
  | p, _, _, @Reads.tooDeep _ limit _ _, _, h =>
      (h.points_complainTooDeep limit).trans (Parser.points_of_errors (Frame.errors_bumps _ _))
  | p, _, _, .absentTooDeep, _, h => h.points_complainTooDeep _
  | _, _, _, .noticing read, tidy, h =>
      read.points ⟨tidy.pending, tidy.ahead, tidy.trailing⟩ ⟨h.ahead, h.eof⟩
  | _, _, _, .nested read, tidy, h =>
      read.points ⟨tidy.pending, tidy.ahead, tidy.trailing⟩ ⟨h.ahead, h.eof⟩

theorem Grows.points : ∀ {f g : Frame}, Grows f g → f.parser.Tidy → f.Within A →
    f.parser.Points A g.parser
  | _, _, .refl _, _, _ => Parser.points_of_errors rfl
  | _, _, .bump grown, tidy, h =>
      (grown.points tidy h).trans (Parser.points_of_errors (Frame.errors_bump _ _))
  | _, _, .attach grown read, tidy, h =>
      (grown.points tidy h).trans (read.points (grown.tidy tidy) (grown.within h).parser)
  | _, _, .notice grown, tidy, h => grown.points tidy h
  | _, _, .block (g := g) (h := k) grown closes _ _ inside, tidy, h => by
      have before := grown.tidy tidy
      have begun := grown.within h
      have entered := inside.within
        ⟨begun.opener, ⟨begun.parser.ahead, begun.parser.eof⟩, begun.held⟩
      have read := inside.points ⟨before.pending, before.ahead, before.trailing⟩
        ⟨begun.opener, ⟨begun.parser.ahead, begun.parser.eof⟩, begun.held⟩
      have closed := Frame.points_close
        (f := { k with parser := k.parser.leaveBlock g.parser.openClosers.length })
        ⟨entered.opener, ⟨entered.parser.ahead, entered.parser.eof⟩, entered.held⟩
        (inside.kind ▸ closes)
      exact ((grown.points tidy h).trans read).trans closed
  | _, _, .nested grown inside, tidy, h => by
      have before := grown.tidy tidy
      have begun := grown.within h
      exact (grown.points tidy h).trans (inside.points
        ⟨before.pending, before.ahead, before.trailing⟩
        ⟨begun.opener, ⟨begun.parser.ahead, begun.parser.eof⟩, begun.held⟩)
  | _, _, @Grows.drop _ _ _ kind grown empty _, tidy, h => by
      have begun := grown.within h
      exact (grown.points tidy h).trans
        (empty.points (grown.tidy tidy) (Frame.within_start begun.parser (grown.tidy tidy) kind))
  | _, _, .tooDeep grown _ _, tidy, h =>
      (grown.points tidy h).trans ((grown.within h).parser.points_complainTooDeep _)

end

end JassSyntax
