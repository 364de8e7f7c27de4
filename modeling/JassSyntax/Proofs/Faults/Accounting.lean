import JassSyntax.Proofs.Reading.Progress
import JassSyntax.Proofs.Reading.Tidy

/-!
# Errors and marks

As long as no nesting is cut off, every complaint leaves one mark in the tree, a placeholder or an
error node, and nothing else leaves any. The moves of a trace show it one by one: a complaint and
its mark are always one move.
-/

namespace JassSyntax

open JassSyntax.Tree

namespace Parser

/-- No nesting has been cut off. -/
def Shallow (p : Parser) : Prop := ∀ e ∈ p.errors.toList, e.kind ≠ .nestingTooDeep

variable {p q : Parser}

theorem Shallow.before (shallow : q.Shallow) (errors : p.errors.toList <+: q.errors.toList) :
    p.Shallow :=
  fun e mem => shallow e (errors.subset mem)

theorem not_shallow_complainTooDeep (limit : Nat) (p : Parser) :
    ¬ (Level.complainTooDeep limit p).Shallow := by
  intro shallow
  obtain ⟨e, mem, deep⟩ := Level.exists_tooDeep limit p
  exact shallow e mem deep

theorem size_errors_complainAt (p : Parser) (span : Span) (c : Complaint) :
    (p.complainAt span c).errors.size = p.errors.size + 1 :=
  Array.size_push _

end Parser

namespace Frame

/-- The marks below the node. -/
def marks (f : Frame) : Nat := marksAll f.children.toList

variable {f : Frame}

@[simp] theorem marks_start (p : Parser) (kind : NodeKind) : (p.start kind).marks = 0 := rfl

theorem marks_attach (tidy : f.parser.Tidy) (role : Option Role) (t : Tree) :
    (f.attach role t).marks = f.marks + t.marks := by
  rw [marks, children_attach]
  simp [marks, marksAll_of_comments tidy.pending]

theorem marks_bump (tidy : f.parser.Tidy) (role : Option Role) : (f.bump role).marks = f.marks := by
  cases head : f.parser.ahead.head? with
  | none =>
      rw [bump_of_none head, marks, children_flush]
      simp [marks, marksAll_of_comments tidy.pending]
  | some item =>
      rw [marks, children_bump head]
      simp [marks, marksAll_of_comments tidy.pending,
        marksAll_of_comments (tidy.of_head head).comments]

theorem marks_finish (f : Frame) :
    f.finish.1.marks = (if f.kind = .error then 1 else 0) + f.marks :=
  marks_ofChildren _ _ _

/-- A construct is no mark itself. -/
theorem marks_finish_construct (construct : f.kind.isConstruct = true) :
    f.finish.1.marks = f.marks := by
  rw [marks_finish, if_neg (NodeKind.ne_error construct), Nat.zero_add]

theorem marks_insertMissing (tidy : f.parser.Tidy) (role : Option Role) (kind : Kind) :
    (f.insertMissing role kind).marks = f.marks + 1 :=
  marks_attach tidy role _

/-- A closer that is not there is complained about and marked. -/
theorem close_accounted {closer : Kind} (tidy : f.parser.Tidy)
    (closes : f.kind.closer = some closer) :
    f.parser.errors.size + f.close.marks = f.close.parser.errors.size + f.marks := by
  rcases close_cases closes with ⟨_, e⟩ | ⟨_, span, e⟩ <;> rw [e]
  · rw [marks_bump tidy, errors_bump]
  · let told : Frame := { f with parser := f.parser.complainAt span (.unclosed f.kind closer) }
    have size : told.parser.errors.size = f.parser.errors.size + 1 :=
      Parser.size_errors_complainAt _ _ _
    have marked := marks_insertMissing (f := told) (tidy.complainAt _ _) (some .closing) closer
    rw [marked]
    show _ = told.parser.errors.size + _
    rw [size]
    show _ + (f.marks + 1) = _
    omega

end Frame

mutual

/-- Reading a tree complains as often as the tree has marks. -/
theorem Reads.accounted : ∀ {p q : Parser} {t : Tree}, Reads p t q → p.Tidy → q.Shallow →
    p.errors.size + t.marks = q.errors.size
  | p, _, _, .leaf here, _, _ => by
      simp [Parser.takeLeaf, here, Parser.advance]
  | p, _, _, .node (f := f) kind construct grown, tidy, shallow => by
      have kept : f.kind.isConstruct = true := by rwa [grown.kind]
      have counted := grown.accounted tidy shallow
      rw [Frame.marks_start] at counted
      rw [Frame.marks_finish_construct kept]
      exact counted
  -- The first child has its marks from before the node was begun.
  | p, _, _, @Reads.around _ q t role f kind construct first grown, tidy,
      shallow => by
      have kept : f.kind.isConstruct = true := by rwa [grown.kind]
      have after := first.tidy tidy
      have early := first.accounted tidy (shallow.before grown.later.errors)
      have late := grown.accounted (Frame.tidy_attach (f := q.start kind) after role t) shallow
      rw [Frame.marks_attach (f := q.start kind) after, Frame.marks_start, Nat.zero_add] at late
      rw [Frame.marks_finish_construct kept]
      have same : ((q.start kind).attach role t).parser.errors = q.errors := rfl
      rw [same] at late
      show _ = f.parser.errors.size
      omega
  | p, _, _, .absent, _, _ => (Parser.size_errors_complainAt _ _ _).symm
  | p, _, _, .stray (c := c) (f := f) _ grown, tidy, shallow => by
      have told := tidy.complainAt p.span c
      let start := (p.complain c).start .error
      have counted := grown.accounted (Frame.tidy_bump (f := start) told none) shallow
      have error : f.kind = .error := by rw [grown.kind, Frame.kind_bump]; rfl
      rw [Frame.errors_bump, Frame.marks_bump (f := start) told] at counted
      have size : start.parser.errors.size = p.errors.size + 1 :=
        Parser.size_errors_complainAt _ _ _
      rw [Frame.marks_finish, if_pos error]
      rw [size] at counted
      show _ = f.parser.errors.size
      have none : start.marks = 0 := rfl
      omega
  | p, _, _, @Reads.tooDeep _ limit n _, _, shallow => by
      have later := Parser.Later.bumps (n := n + 1)
        (f := (Level.complainTooDeep limit p).start .error) (.refl _)
      exact absurd (shallow.before later.errors) (Parser.not_shallow_complainTooDeep limit p)
  | p, _, _, @Reads.absentTooDeep _ limit, _, shallow =>
      absurd shallow (Parser.not_shallow_complainTooDeep limit p)
  | _, _, _, .noticing read, tidy, shallow =>
      read.accounted ⟨tidy.pending, tidy.ahead, tidy.trailing⟩ shallow
  | _, _, _, .nested read, tidy, shallow =>
      read.accounted ⟨tidy.pending, tidy.ahead, tidy.trailing⟩ shallow

/-- A frame that grows gains as many marks as it complains. -/
theorem Grows.accounted : ∀ {f g : Frame}, Grows f g → f.parser.Tidy → g.parser.Shallow →
    f.parser.errors.size + g.marks = g.parser.errors.size + f.marks
  | _, _, .refl _, _, _ => rfl
  | _, _, .bump (g := g) grown, tidy, shallow => by
      rw [Frame.errors_bump, Frame.marks_bump (grown.tidy tidy)]
      refine grown.accounted tidy ?_
      rwa [Parser.Shallow, Frame.errors_bump] at shallow
  | _, _, @Grows.attach _ g q t role grown read, tidy, shallow => by
      have before := grown.tidy tidy
      have early := grown.accounted tidy (shallow.before read.later.errors)
      have late := read.accounted before shallow
      rw [Frame.marks_attach (f := { g with parser := q }) (read.tidy before)]
      show _ + (g.marks + _) = q.errors.size + _
      omega
  | _, _, .notice grown, tidy, shallow => grown.accounted tidy shallow
  | _, _, .block (g := g) (h := h) grown closes _ _ inside, tidy, shallow => by
      have before := grown.tidy tidy
      have filled := inside.tidy ⟨before.pending, before.ahead, before.trailing⟩
      let left : Frame := { h with parser := h.parser.leaveBlock g.parser.openClosers.length }
      have closed : left.kind.closer = some _ := inside.kind ▸ closes
      have after : left.parser.Tidy := ⟨filled.pending, filled.ahead, filled.trailing⟩
      have inner : h.parser.Shallow :=
        shallow.before (Parser.Later.close (f := left) (.refl _) closed).errors
      have early := grown.accounted tidy (inner.before inside.later.errors)
      have middle : g.parser.errors.size + h.marks = h.parser.errors.size + g.marks :=
        inside.accounted ⟨before.pending, before.ahead, before.trailing⟩ inner
      have last : h.parser.errors.size + left.close.marks =
          left.close.parser.errors.size + h.marks := Frame.close_accounted after closed
      show _ + left.close.marks = left.close.parser.errors.size + _
      omega
  | _, _, .nested (g := g) (h := h) grown inside, tidy, shallow => by
      have before := grown.tidy tidy
      have early := grown.accounted tidy
        (Parser.Shallow.before (q := h.parser) shallow inside.later.errors)
      have late : g.parser.errors.size + h.marks = h.parser.errors.size + g.marks :=
        inside.accounted ⟨before.pending, before.ahead, before.trailing⟩ shallow
      show _ + h.marks = h.parser.errors.size + _
      omega
  -- The dropped node has no children and so no marks. Nothing was complained about in it.
  | _, _, .drop (g := g) (h := h) grown empty childless, tidy, shallow => by
      have early := grown.accounted tidy
        (Parser.Shallow.before (q := h.parser) shallow empty.later.errors)
      have late := empty.accounted (grown.tidy tidy) shallow
      have none : h.marks = 0 := by rw [Frame.marks, childless]; rfl
      rw [none, Frame.marks_start] at late
      have same : g.parser.errors.size = h.parser.errors.size := late
      show _ + g.marks = h.parser.errors.size + _
      omega
  | _, _, @Grows.tooDeep _ _ limit grown _ _, _, shallow =>
      absurd shallow (Parser.not_shallow_complainTooDeep limit _)

end

/-! ## Programs -/

namespace Program

/-- What a program has besides the children of its frame are comments. -/
theorem marks_parseWithin (limit : Nat) (tokens : List Token) :
    (parseWithin limit tokens).1.marks =
      (((Parser.ofTokens tokens).start .program).loop (step (.stack limit limit))).marks := by
  have after := (loop_grows limit tokens).tidy (Parser.tidy_ofTokens tokens)
  rw [marks_eq]
  simp [parseWithin, finish, nodeKind?, isMissing, children, Frame.marks, Frame.flush,
    marksAll_of_comments after.pending, marksAll_of_comments after.trailing]

/-- As long as no nesting is cut off, there is one mark for each error. -/
theorem parseWithin_accounted (limit : Nat) (tokens : List Token)
    (shallow : ∀ e ∈ (parseWithin limit tokens).2, e.kind ≠ .nestingTooDeep) :
    (parseWithin limit tokens).2.length = (parseWithin limit tokens).1.marks := by
  let start := (Parser.ofTokens tokens).start .program
  let last := start.loop (step (.stack limit limit))
  have counted : start.parser.errors.size + last.marks = last.parser.errors.size + start.marks :=
    (loop_grows limit tokens).accounted (Parser.tidy_ofTokens tokens) shallow
  have none : start.parser.errors.size = 0 := rfl
  rw [none, Nat.zero_add, Frame.marks_start, Nat.add_zero] at counted
  rw [marks_parseWithin]
  exact Array.length_toList.trans counted.symm

/-- **Every repair is reported once, and every report has one repair.** As long as no nesting is cut
off, there are as many errors as error nodes and placeholders in the tree. -/
theorem parse_accounted (tokens : List Token)
    (shallow : ∀ e ∈ (parse tokens).2, e.kind ≠ .nestingTooDeep) :
    (parse tokens).2.length = (parse tokens).1.errorNodes + (parse tokens).1.placeholders :=
  parseWithin_accounted maxDepth tokens shallow

/-- The text `do ) a = end`. The bracket is put aside, and the value is not there. -/
theorem parse_accounted_stray :
    let tokens : List Token := [⟨.kwDo, "do", default⟩, ⟨.rParen, ")", default⟩,
      ⟨.identifier, "a", default⟩, ⟨.equals, "=", default⟩, ⟨.kwEnd, "end", default⟩]
    (∀ e ∈ (parse tokens).2, e.kind ≠ .nestingTooDeep) ∧ (parse tokens).2.length = 2 ∧
      (parse tokens).2.length = (parse tokens).1.errorNodes + (parse tokens).1.placeholders := by
  intro tokens
  have shallow : ∀ e ∈ (parse tokens).2, e.kind ≠ .nestingTooDeep := by decide +kernel
  exact ⟨shallow, by decide +kernel, parse_accounted tokens shallow⟩

end Program

end JassSyntax
