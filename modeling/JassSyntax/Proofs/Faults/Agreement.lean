import JassSyntax.Proofs.Derivation.Faultless
import JassSyntax.Proofs.Derivation.Grouping
import JassSyntax.Proofs.Faults.Accounting

/-!
# Errors and faulty trees

A tree without faults belongs to a text without errors, and the other way round, up to one kind of
cut: a body beyond the nesting limit that ends where it would begin is complained about, and as
there is nothing to put aside, the tree does not show it.
-/

namespace JassSyntax

open Computability Production

/-! ## Texts without errors have no faults -/

namespace Production

open JassSyntax.Tree

/-- The tree is no fault itself. -/
def Faultless (t : Tree) : Prop := t.isFault = false

theorem faultless_tokenOf {passes : Kind → Prop} (role : Option Role)
    (other : ¬ passes .error) : Each Faultless (tokenOf passes role) := by
  refine .one ?_
  rintro _ ⟨token, rfl, pass⟩
  rw [Faultless, isFault, beq_eq_false_iff_ne]
  intro error
  rw [error] at pass
  exact other pass

theorem faultless_of_nodeKind {t : Tree} {kind : NodeKind} (node : t.nodeKind? = some kind)
    (other : kind ≠ .error) : Faultless t := by
  cases t with
  | token | missing => cases node
  | node =>
      cases node
      rw [Faultless, isFault, beq_eq_false_iff_ne]
      exact other

theorem faultless_nodeOf {passes : NodeKind → Prop} (role : Option Role)
    (other : ¬ passes .error) : Each Faultless (nodeOf passes role) := by
  refine .one ?_
  rintro t ⟨_, kind, node, pass⟩
  refine faultless_of_nodeKind node ?_
  rintro rfl
  exact other pass

theorem faultless_of_isExpression {t : Tree} (h : t.IsExpression .clean) : Faultless t := by
  cases h with
  | @leaf role token operand =>
      rw [Faultless, isFault, beq_eq_false_iff_ne]
      intro error
      rw [error] at operand
      cases operand
  | node node expression =>
      refine faultless_of_nodeKind node ?_
      rintro rfl
      cases expression
  | absent repairs => exact absurd rfl repairs
  | error _ repairs => exact absurd rfl repairs

theorem faultless_expression (power : Nat) (role : Option Role) :
    Each Faultless (expression .clean power role) :=
  .one fun _ shape => faultless_of_isExpression shape.2.1

theorem faultless_plainOperand (role : Option Role) :
    Each Faultless (plainOperand .clean role) :=
  .one fun _ shape => faultless_of_isExpression shape.2.1

theorem faultless_leftOperand (power : Nat) (side : Associativity)
    (role : Option Role) : Each Faultless (leftOperand .clean power side role) :=
  .one fun _ shape => faultless_of_isExpression shape.2.1

theorem faultless_base : Each Faultless base := by
  refine .one ?_
  rintro t ⟨_, ⟨token, leaf, name⟩ | ⟨kind, node, base⟩⟩
  · cases t with
    | missing | node => cases leaf
    | token =>
        cases leaf
        rw [Faultless, isFault, name]
        rfl
  · refine faultless_of_nodeKind node ?_
    rintro rfl
    cases base

theorem faultless_token {kind : Kind} (role : Option Role) (other : kind ≠ .error) :
    Each Faultless (token kind role) :=
  faultless_tokenOf role fun same => other same.symm

theorem faultless_node {kind : NodeKind} (role : Option Role) (other : kind ≠ .error) :
    Each Faultless (node kind role) :=
  faultless_nodeOf role fun same => other same.symm

theorem faultless_commaSeparated {L : Language Tree} (each : Each Faultless L) :
    Each Faultless (commaSeparated L) :=
   (each.mul (faultless_token _ (by decide))).star.mul each

theorem faultless_operationOf (passes : Kind → Prop) :
    Each Faultless (operationOf .clean passes) := by
  rintro w ⟨op, own, side, _, binary, word⟩
  have operator : op ≠ .error := by
    rintro rfl
    cases binary
  exact (((faultless_leftOperand _ _ _).mul (faultless_token _ operator)).mul
    (faultless_expression _ _)) w word

theorem faultless_body : Each Faultless body :=
   Each.empty.add (faultless_node _ (by decide))

theorem faultless_modifier : Each Faultless modifier :=
  faultless_tokenOf _ (by decide)

theorem faultless_prefix :
    Each Faultless (tokenOf (·.isUnary = true) (some .operator)) :=
  faultless_tokenOf _ (by decide)

theorem faultless_arguments : Each Faultless arguments :=
  faultless_nodeOf _ (by decide)

theorem faultless_statement : Each Faultless (statement .clean) := by
  rw [statement_clean]
  exact faultless_nodeOf _ (by decide)

/-- No production of the grammar asks for a fault. -/
theorem faultless_production (kind : NodeKind) : Each Faultless (production .clean kind) := by
  cases kind
  case binaryExpression => exact faultless_operationOf _
  case assignmentExpression => exact faultless_operationOf _
  all_goals
    simp only [production, wanted_clean, closing_clean, repaired_clean, junk, member, method,
      parameters, separator]
    repeat' first
      | exact Each.zero
      | exact Each.empty
      | exact faultless_token _ Kind.noConfusion
      | exact faultless_node _ NodeKind.noConfusion
      | exact faultless_expression _ _
      | exact faultless_plainOperand _
      | exact faultless_leftOperand _ _ _
      | exact faultless_base
      | exact faultless_body
      | exact faultless_modifier
      | exact faultless_prefix
      | exact faultless_arguments
      | exact faultless_statement
      | apply faultless_commaSeparated
      | apply Each.add
      | apply Each.mul
      | apply Each.star

end Production

namespace Program

/-- Without errors nothing is missing, nothing is put aside, and no character is unrecognized. -/
theorem hasErrors_of_errors_nil (limit : Nat) (tokens : List Token)
    (none : (parseWithin limit tokens).2 = []) :
    (parseWithin limit tokens).1.hasErrors = false := by
  have lawful : (parseWithin limit tokens).1.Lawful .clean := parseWithin_lawful limit tokens none
  have faultless : (parseWithin limit tokens).1.Everywhere Faultless := by
    refine lawful.of_parents rfl fun t built c part => ?_
    cases node : t.nodeKind? with
    | some kind => exact faultless_production kind _ (built.derived kind node) c part
    | none =>
        cases t with
        | token | missing => cases part
        | node => cases node
  refine Bool.eq_false_iff.mpr fun errors => ?_
  obtain ⟨e, mem, fault⟩ := (Tree.hasErrors_iff _).mp errors
  rcases faultless.elements (remarked_parseWithin limit tokens) e mem with fine | comment
  · rw [fine] at fault
    cases fault
  · rw [comment.isFault] at fault
    cases fault

end Program

/-! ## Errors leave marks -/

namespace Parser

/-- From the first parser to the second nothing is complained about but nesting, right before a
closing keyword, and that only if it was not the last complaint before. -/
def OnlyCut (p q : Parser) : Prop :=
  q.errors = p.errors ∨ ∃ e : ParseError, q.errors = p.errors.push e ∧ e.kind = .nestingTooDeep ∧
    e.found.isClosingKeyword = true ∧ p.errors.back?.any (·.kind == .nestingTooDeep) = false

variable {p q r : Parser} {a b c : Nat}

theorem OnlyCut.trans (first : p.OnlyCut q) (second : q.OnlyCut r) : p.OnlyCut r := by
  rcases first with same | ⟨e, pushed, deep, closing, fresh⟩
  · rw [OnlyCut, same] at second
    exact second
  rcases second with same' | ⟨_, _, _, _, fresh'⟩
  · exact .inr ⟨e, same'.trans pushed, deep, closing, fresh⟩
  -- A second complaint about nesting would follow the first.
  · rw [pushed] at fresh'
    simp [deep] at fresh'

/-- The marks become no fewer. If they stay as many, nothing is complained about that the tree would
have to show, or the text ends inside a block, whose missing closer will be marked. -/
structure Answered (p q : Parser) (before after : Nat) : Prop where
  le : before ≤ after
  shown : p.OnlyCut q ∨ before < after ∨ q.kind = .eof ∧ p.openClosers ≠ []

namespace Answered

/-- Nothing is complained about. -/
theorem quiet (same : q.errors = p.errors) (n : Nat) : Answered p q n n :=
  ⟨Nat.le_refl n, .inl (.inl same)⟩

theorem marked (more : a < b) : Answered p q a b :=
  ⟨Nat.le_of_lt more, .inr (.inl more)⟩

theorem trans (first : Answered p q a b) (second : Answered q r b c) (tidy : q.Tidy)
    (before : q.openClosers = p.openClosers) (later : q.Later r) : Answered p r a c := by
  refine ⟨Nat.le_trans first.le second.le, ?_⟩
  rcases first.shown with silent | more | ⟨ended, inside⟩
  · rcases second.shown with silent' | more | ⟨ended, inside⟩
    · exact .inl (silent.trans silent')
    · exact .inr (.inl (Nat.lt_of_le_of_lt first.le more))
    · exact .inr (.inr ⟨ended, before ▸ inside⟩)
  · exact .inr (.inl (Nat.lt_of_lt_of_le more second.le))
  · exact .inr (.inr ⟨tidy.kind_eof later ended, inside⟩)

/-- The marks of a part count in the whole. -/
theorem shift (h : Answered p q a b) (n : Nat) : Answered p q (n + a) (n + b) :=
  ⟨Nat.add_le_add_left h.le n, h.shown.imp_right (Or.imp_left (Nat.add_lt_add_left · n))⟩

end Answered

/-- Blocks are open only up to closing keywords. -/
def Closable (p : Parser) : Prop := ∀ k ∈ p.openClosers, k.isClosingKeyword = true

theorem Closable.later (h : p.Closable) (later : p.Later q) : q.Closable := by
  rw [Closable, later.openClosers]
  exact h

end Parser

/-- A body beyond the limit that ends where it would begin. -/
theorem Level.complainTooDeep_answered {p : Parser} (limit n : Nat) (enclosed : p.openClosers ≠ [])
    (ends : p.kind = .eof ∨ p.kind.isClosingKeyword = true) :
    Parser.Answered p (complainTooDeep limit p) n n := by
  unfold complainTooDeep
  split
  · exact .quiet rfl n
  · next fresh =>
    refine ⟨Nat.le_refl n, ?_⟩
    rcases ends with ended | closing
    · exact .inr (.inr ⟨ended, enclosed⟩)
    · exact .inl (.inr ⟨_, rfl, rfl, closing, by simpa using fresh⟩)

/-- A closer that is taken leaves no mark, and one that is not there does. -/
theorem Frame.close_marks {f : Frame} {closer : Kind} (tidy : f.parser.Tidy)
    (closes : f.kind.closer = some closer) :
    f.current = closer ∧ f.close.marks = f.marks ∧ f.close.parser.errors = f.parser.errors ∨
      f.close.marks = f.marks + 1 := by
  rcases close_cases closes with ⟨here, e⟩ | ⟨_, span, e⟩ <;> rw [e]
  · exact .inl ⟨here, marks_bump tidy _, errors_bump _ _⟩
  · exact .inr (marks_insertMissing (f := { f with parser := f.parser.complainAt span _ })
      (tidy.complainAt _ _) _ _)

/-- A block shows what was complained about in it. That the text ends inside is shown by its missing
closer. -/
theorem Parser.Answered.block {p : Parser} {h : Frame} {closers : List Kind} {closer : Kind}
    {before : Nat} (mark : Nat)
    (inside : Parser.Answered (p.enterBlock closers) h.parser before h.marks)
    (tidy : h.parser.Tidy) (closes : h.kind.closer = some closer) :
    let closed := { h with parser := h.parser.leaveBlock mark }.close
    Parser.Answered p closed.parser before closed.marks := by
  intro closed
  let left : Frame := { h with parser := h.parser.leaveBlock mark }
  have after : left.parser.Tidy := ⟨tidy.pending, tidy.ahead, tidy.trailing⟩
  rcases Frame.close_marks (f := left) after closes with ⟨here, marks, errors⟩ | marks
  · have same : closed.marks = h.marks := marks
    have told : closed.parser.errors = h.parser.errors := errors
    have current : h.parser.kind = closer := here
    rw [same]
    refine ⟨inside.le, ?_⟩
    rcases inside.shown with silent | more | ⟨ended, _⟩
    · refine .inl ?_
      rw [OnlyCut, told]
      exact silent
    · exact .inr (.inl more)
    · have keyword := NodeKind.isClosingKeyword_of_closer closes
      rw [← current, ended] at keyword
      cases keyword
  · have more : closed.marks = h.marks + 1 := marks
    exact .marked (more ▸ Nat.lt_succ_of_le inside.le)

mutual

theorem Reads.answered : ∀ {p q : Parser} {t : Tree}, Reads p t q → p.Tidy → p.Closable →
    Parser.Answered p q 0 t.marks
  | p, _, _, .leaf here, _, _ => by
      simp only [Parser.takeLeaf, here]
      exact ⟨Nat.le_refl 0, .inl (.inl rfl)⟩
  | p, _, _, .node (f := f) kind construct grown, tidy, closable => by
      have kept : f.kind.isConstruct = true := by rwa [grown.kind]
      rw [Frame.marks_finish_construct kept]
      exact grown.answered tidy closable
  | p, _, _, @Reads.around _ q t role f kind construct first grown, tidy,
      closable => by
      have kept : f.kind.isConstruct = true := by rwa [grown.kind]
      have between := first.tidy tidy
      have begun : (q.start kind).parser.Tidy := between
      have early := first.answered tidy closable
      have late := grown.answered (Frame.tidy_attach begun role t)
        (closable.later (first.later.pending []))
      rw [Frame.marks_attach begun, Frame.marks_start, Nat.zero_add] at late
      rw [Frame.marks_finish_construct kept]
      exact early.trans (q := q) ⟨late.le, late.shown⟩ between first.later.openClosers
        (((Parser.Later.refl q).pending []).trans grown.later)
  | _, _, _, .absent, _, _ => .marked Nat.zero_lt_one
  | p, _, _, .stray (f := f) _ grown, _, _ => by
      have error : f.kind = .error := by rw [grown.kind, Frame.kind_bump]; rfl
      rw [Frame.marks_finish, if_pos error]
      exact .marked (Nat.lt_of_lt_of_le Nat.zero_lt_one (Nat.le_add_right _ _))
  | _, _, _, @Reads.tooDeep p limit n _, _, _ => by
      have error : (((Level.complainTooDeep limit p).start .error).bumps (n + 1)).kind = .error :=
        Frame.kind_bumps _ _
      rw [Frame.marks_finish, if_pos error]
      exact .marked (Nat.lt_of_lt_of_le Nat.zero_lt_one (Nat.le_add_right _ _))
  | _, _, _, .absentTooDeep, _, _ => .marked Nat.zero_lt_one
  | _, _, _, .noticing read, tidy, closable =>
      have inside := read.answered ⟨tidy.pending, tidy.ahead, tidy.trailing⟩ closable
      ⟨inside.le, inside.shown⟩
  | _, _, _, .nested read, tidy, closable =>
      have inside := read.answered ⟨tidy.pending, tidy.ahead, tidy.trailing⟩ closable
      ⟨inside.le, inside.shown⟩

theorem Grows.answered : ∀ {f g : Frame}, Grows f g → f.parser.Tidy → f.parser.Closable →
    Parser.Answered f.parser g.parser f.marks g.marks
  | _, _, .refl _, _, _ => .quiet rfl _
  | _, _, @Grows.bump _ g role grown, tidy, closable => by
      have before := grown.tidy tidy
      rw [Frame.marks_bump before]
      exact (grown.answered tidy closable).trans (.quiet (g.errors_bump role) _) before
        grown.later.openClosers (Parser.Later.bump (.refl _))
  | _, _, @Grows.attach _ g q t role grown read, tidy, closable => by
      have before := grown.tidy tidy
      have part := (read.answered before (closable.later grown.later)).shift g.marks
      rw [Frame.marks_attach (f := { g with parser := q }) (read.tidy before)]
      exact (grown.answered tidy closable).trans (r := { q with pending := [] })
        ⟨part.le, part.shown⟩ before grown.later.openClosers (read.later.pending [])
  | _, _, .notice grown, tidy, closable =>
      have before := grown.answered tidy closable
      ⟨before.le, before.shown⟩
  | _, _, @Grows.block _ g h closers closer grown closes nonempty
      closing inside, tidy, closable => by
      have before := grown.tidy tidy
      have entered : (g.parser.enterBlock closers).Closable := by
        intro k mem
        rcases List.mem_append.mp mem with mem | mem
        · exact closable.later grown.later k mem
        · exact closing k mem
      have closes' : h.kind.closer = some closer := inside.kind ▸ closes
      have filled := inside.tidy ⟨before.pending, before.ahead, before.trailing⟩
      have block := (inside.answered ⟨before.pending, before.ahead, before.trailing⟩ entered).block
        g.parser.openClosers.length filled closes'
      exact (grown.answered tidy closable).trans block before grown.later.openClosers
        (Grows.block (.refl g) closes nonempty closing inside).later
  | _, _, .nested (g := g) (h := h) grown inside, tidy, closable => by
      have before := grown.tidy tidy
      have part := inside.answered ⟨before.pending, before.ahead, before.trailing⟩
        fun k mem => closable.later grown.later k mem
      exact (grown.answered tidy closable).trans (r := h.parser.ascend) ⟨part.le, part.shown⟩ before
        grown.later.openClosers (Grows.nested (.refl g) inside).later
  -- The dropped node has no children, so it has shown nothing, and nothing had to be shown.
  | _, _, .drop (g := g) (h := h) grown empty childless, tidy, closable => by
      have before := grown.tidy tidy
      have none : h.marks = 0 := by rw [Frame.marks, childless]; rfl
      have part := empty.answered before (closable.later grown.later)
      rw [none] at part
      exact (grown.answered tidy closable).trans (part.shift g.marks) before
        grown.later.openClosers empty.later
  | _, _, @Grows.tooDeep _ g limit grown enclosed ends, tidy, closable => by
      have before := grown.tidy tidy
      have ends' : g.parser.kind = .eof ∨ g.parser.kind.isClosingKeyword = true := by
        rcases ends with ended | closing | waited
        · exact .inl ended
        · exact .inr closing
        · exact .inr (closable.later grown.later _ waited)
      exact (grown.answered tidy closable).trans
        (Level.complainTooDeep_answered limit g.marks enclosed ends') before
        grown.later.openClosers (g.parser.later_complainTooDeep limit)

end

/-! ## Programs -/

namespace Program

/-- A tree without marks belongs to a text without errors, or with one cut that there was nothing to
put aside for. -/
theorem errors_of_marks (limit : Nat) (tokens : List Token)
    (none : (parseWithin limit tokens).1.marks = 0) :
    (parseWithin limit tokens).2 = [] ∨ ∃ e, (parseWithin limit tokens).2 = [e] ∧
      e.kind = .nestingTooDeep ∧ e.found.isClosingKeyword = true := by
  have answered := (loop_grows limit tokens).answered (Parser.tidy_ofTokens tokens)
    (fun k mem => by cases mem)
  rw [Frame.marks_start, ← marks_parseWithin limit tokens, none] at answered
  rcases answered.shown with same | more | ⟨_, inside⟩
  · rcases same with same | ⟨e, pushed, deep, closing, _⟩
    · exact .inl (congrArg Array.toList same)
    · exact .inr ⟨e, congrArg Array.toList pushed, deep, closing⟩
  · cases more
  · exact absurd rfl inside

/-- **Errors and the tree agree.** Without errors the tree has no faults. A tree without faults
belongs to a text without errors, or with a single one: that a body beyond the nesting limit was
reached and ended, with a closing keyword, where it began. -/
theorem parse_agrees (tokens : List Token) :
    ((parse tokens).2 = [] → (parse tokens).1.hasErrors = false) ∧
      ((parse tokens).1.hasErrors = false → (parse tokens).2 = [] ∨ ∃ e, (parse tokens).2 = [e] ∧
        e.kind = .nestingTooDeep ∧ e.found.isClosingKeyword = true) := by
  constructor
  · intro none
    exact hasErrors_of_errors_nil maxDepth tokens none
  · intro faultless
    exact errors_of_marks maxDepth tokens (Tree.marks_of_hasErrors faultless)

/-- Without room for nesting, the text `do end` is such a text. -/
example :
    let tokens : List Token := [⟨.kwDo, "do", default⟩, ⟨.kwEnd, "end", default⟩]
    (parseWithin 0 tokens).1.hasErrors = false ∧
      (parseWithin 0 tokens).2.map ParseError.kind = [.nestingTooDeep] := by
  decide +kernel

end Program

end JassSyntax
