import JassSyntax.Proofs.Writing.Expressions
import JassSyntax.Proofs.Writing.Legible
import JassSyntax.Proofs.Writing.Statements

/-!
# Reading written programs

Bodies are read statement by statement. A level reads whatever nests no deeper than the levels below
it reach: that is an induction on the program. From it follows that every program is read as what it
is when it is written out.
-/

namespace JassSyntax

open JassSyntax.Tree Abstract

variable {inner : Level} {d : Nat} {rest : List Token}

namespace Statement

/-! ## Bodies -/

theorem first_heading (heading : Heading) (names : List Token) :
    (firstKind (leavesAll heading.trees ++ names)).canStartStatement = true := by
  have modifier : ∀ m : Modifier, m.kind.canStartStatement = true := by
    intro m
    have modifies := m.modifies
    revert modifies
    cases m.kind <;> decide
  cases heading with
  | untyped first more => exact modifier first
  | typed modifiers type arrays =>
      cases modifiers with
      | nil => rfl
      | cons first more => exact modifier first

theorem first_statement {s : Stmt} (grouped : s.grouped = true) (rest : List Token) :
    (firstKind (s.tree.leaves ++ rest)).canStartStatement = true := by
  cases s with
  | declaration heading first more =>
      rw [Stmt.tree, leaves_build, leavesAll_append, List.append_assoc]
      exact first_heading heading _
  | block b body => cases b <;> simp [Stmt.tree, closed, SimpleBlock.opener, Kind.canStartStatement]
  | expression e =>
      rw [Stmt.grouped] at grouped
      have starts := Expr.first_canStart grouped rest
      simp [Stmt.tree, Kind.canStartStatement, starts]
  | _ => simp [Stmt.tree, closed, semicolon, Kind.canStartStatement, Kind.canStartExpression]

theorem leaves_ne_nil {s : Stmt} (grouped : s.grouped = true) : s.tree.leaves ≠ [] := by
  intro nil
  have starts := first_statement grouped []
  rw [nil] at starts
  cases starts

theorem not_closing_of_canStart {k : Kind} (starts : k.canStartStatement = true) :
    k.isClosingKeyword = false := by
  revert starts
  cases k <;> decide

/-- A loop over statements reads each of them and the semicolon behind it. -/
theorem statements_hold {k : NodeKind} {step : Frame → Frame × Bool}
    (goes : ∀ g : Frame, g.current.canStartStatement = true →
      (∀ k ∈ g.parser.openClosers, k.isClosingKeyword = true) →
      step g = (g.child none (statement inner), true))
    (stops : ∀ g : Frame, g.current = firstKind rest → step g = (g, false)) :
    ∀ {ss : List Stmt} {cs : List Tree} {f : Frame},
      (∀ s ∈ ss, s.grouped = true ∧ Reads inner d s) →
      f.Holds k cs d (leavesAll (bodyTrees ss) ++ rest) →
      (f.loop step).Holds k (cs ++ bodyTrees ss) d rest
  | [], cs, f, _, h => by
      have words : f.Holds k cs d rest := by simpa [bodyTrees] using h
      have stop := stops f words.current
      rw [Frame.loop_of_stop (by rw [stop]), stop]
      simpa [bodyTrees] using words
  | s :: ss, cs, f, reads, h => by
      obtain ⟨grouped, read⟩ := reads s List.mem_cons_self
      have words : f.Holds k cs d (s.tree.leaves ++ .spelled .semicolon ::
          (leavesAll (bodyTrees ss) ++ rest)) := by
        simpa [bodyTrees, semicolon] using h
      -- One round reads the statement, the next the semicolon behind it.
      have first := words.child none (read f.parser _ words.parser rfl)
      rw [Stmt.withRole_none] at first
      have starts : f.current.canStartStatement = true := by
        rw [words.current]
        exact first_statement grouped _
      have second : Frame.Holds k (cs ++ [s.tree] ++ [semicolon]) d
          (leavesAll (bodyTrees ss) ++ rest)
          ((f.child none (statement inner)).child none (statement inner)) :=
        first.child none (semicolon_found inner first.parser)
      have all := statements_hold goes stops
        (fun x mem => reads x (List.mem_cons_of_mem s mem)) second
      have shorter := List.length_pos_iff.mpr (leaves_ne_nil grouped)
      rw [words.loop_next (goes f starts words.parser.closers) first
          (by simp only [List.length_cons, List.length_append]; omega),
        first.loop_next (goes _ (by rw [first.current]; rfl) first.parser.closers) second (by simp)]
      simpa [bodyTrees] using all

theorem bodyStep_of_start (construct : NodeKind) {terminators : List Kind} {f : Frame}
    (closing : ∀ k ∈ terminators, k.isClosingKeyword = true)
    (starts : f.current.canStartStatement = true)
    (closers : ∀ k ∈ f.parser.openClosers, k.isClosingKeyword = true) :
    bodyStep inner construct terminators f = (f.child none (statement inner), true) := by
  have opens := not_closing_of_canStart starts
  unfold bodyStep
  dsimp only
  rw [if_neg, if_pos starts]
  rintro (eof | terminates | closes)
  · exact Kind.ne_eof_of_canStartStatement starts eof
  · rw [closing _ (List.contains_iff_mem.mp terminates)] at opens
    cases opens
  · rw [closers _ (List.contains_iff_mem.mp closes)] at opens
    cases opens

theorem bodyStep_of_terminator {construct : NodeKind} {terminators : List Kind} {f : Frame}
    (ends : f.current ∈ terminators) : bodyStep inner construct terminators f = (f, false) := by
  unfold bodyStep
  dsimp only
  rw [if_pos (.inr (.inl (List.contains_iff_mem.mpr ends)))]

theorem body_holds {k : NodeKind} {cs : List Tree} {f : Frame} {terminators : List Kind}
    {ss : List Stmt} (reads : ∀ s ∈ ss, s.grouped = true ∧ Reads inner d s)
    (h : f.Holds k cs d (leavesAll (bodyPart (bodyTrees ss)) ++ rest))
    (closing : ∀ k ∈ terminators, k.isClosingKeyword = true) (ends : firstKind rest ∈ terminators) :
    (body inner terminators f).Holds k (cs ++ bodyPart (bodyTrees ss)) d rest := by
  have words : f.Holds k cs d (leavesAll (bodyTrees ss) ++ rest) := by
    cases ss <;> simpa [bodyTrees, bodyPart] using h
  have block := statements_hold (fun g => bodyStep_of_start f.kind closing)
    (fun g same => bodyStep_of_terminator (by rw [same]; exact ends)) reads
    (words.parser.start .block)
  rw [List.nil_append] at block
  unfold body
  dsimp only
  -- A block without statements is not kept.
  cases ss with
  | nil =>
      have none := Array.toList_eq_nil_iff.mp (bareAll_eq_nil block.children)
      rw [if_pos (by rw [none]; rfl), bodyTrees, bodyPart, List.append_nil]
      exact ⟨h.kind, h.children, block.parser⟩
  | cons s ss =>
      rw [if_neg]
      · exact h.put (some .body) block.finish
      · intro empty
        have none := block.children
        rw [Array.isEmpty_iff.mp empty] at none
        cases none

end Statement

/-! ## Levels -/

namespace Abstract

open Expression Statement

variable {limit : Nat}

/-- Wherever the nesting of the expression fits below the limit, it is read as it is meant. -/
structure Expr.Read (limit : Nat) (e : Expr) : Prop where
  operand : ∀ room d, d + room = limit → e.depth ≤ room → Power.closed ≤ e.power →
    ReadsOperand (.stack limit room) d e
  operation : ∀ room d, d + room = limit → e.depth ≤ room →
    ReadsOperation (.stack limit room) d e

def Stmt.Read (limit : Nat) (s : Stmt) : Prop :=
  ∀ room d, d + room = limit → s.depth ≤ room → Statement.Reads (.stack limit room) d s

variable {room d : Nat}

theorem Expr.Read.finds {e : Expr} (read : e.Read limit) (sum : d + room = limit)
    (shallow : 1 + e.depth ≤ room) {power : Nat} (fits : e.fits power = true)
    (bounded : power ≤ 11) : (Level.stack limit room).Finds d power e := by
  cases room with
  | zero => omega
  | succ room =>
      exact above_finds (read.operation room (d + 1) (by omega) (by omega)) (by omega) fits bounded

theorem findsBody_of_read {ss : List Stmt} (read : ∀ s ∈ ss, s.grouped = true ∧ s.Read limit)
    (sum : d + room = limit) (shallow : 1 + bodyDepth ss ≤ room) :
    (Level.stack limit room).FindsBody d ss := by
  cases room with
  | zero => omega
  | succ room =>
      intro k cs f terminators rest h closing ends
      rcases Level.above_body_cases limit (.stack limit room) terminators f with
        ⟨full, _⟩ | ⟨_, same⟩
      · rw [h.parser.depth] at full
        omega
      have reads : ∀ s ∈ ss, s.grouped = true ∧
          Statement.Reads (.stack limit room) (d + 1) s := by
        intro s mem
        have le := depth_le_bodyDepth mem
        exact ⟨(read s mem).1, (read s mem).2 room (d + 1) (by omega) (by omega)⟩
      -- One level is left, and the level below it stands one deeper.
      have inside : Frame.Holds k cs (d + 1) (leavesAll (bodyPart (bodyTrees ss)) ++ rest)
          { f with parser := { f.parser with depth := f.parser.depth + 1 } } :=
        ⟨h.kind, h.children, h.parser.descend⟩
      have holds := body_holds reads inside closing ends
      rw [Level.stack, same]
      exact ⟨holds.kind, holds.children, holds.parser.ascend⟩

/-- Nothing is read into an expression that no operator can reach into: to read it is to read an
operand. -/
theorem Expr.read_of_operand {e : Expr} (grouped : e.grouped = true)
    (closed : Power.closed ≤ e.power)
    (reads : ∀ room d, d + room = limit → e.depth ≤ room → ReadsOperand (.stack limit room) d e) :
    e.Read limit where
  operand room d sum shallow _ := reads room d sum shallow
  operation room d sum shallow := closed_operation grouped closed (reads room d sum shallow)

/-- What is no operand of its own is read as an operation. -/
theorem Expr.read_of_operation {e : Expr} (open_ : e.power < Power.closed)
    (reads : ∀ room d, d + room = limit → e.depth ≤ room →
      ReadsOperation (.stack limit room) d e) : e.Read limit where
  operand _ _ _ _ closed := absurd closed (Nat.not_le.mpr open_)
  operation := reads

/-! ## All programs -/

-- The recursion is that of the programs. The level goes down only where the nesting does, and there
-- `finds` and `findsBody_of_read` pass from one level to the next.
mutual

theorem Expr.read (limit : Nat) : ∀ e : Expr, e.grouped = true → e.Read limit
  | .name text, g => Expr.read_of_operand g (Nat.le_refl _) fun _ _ _ _ => name_operand text
  | .number text, g => Expr.read_of_operand g (Nat.le_refl _) fun _ _ _ _ => number_operand text
  | .float text, g => Expr.read_of_operand g (Nat.le_refl _) fun _ _ _ _ => float_operand text
  | .string s, g => Expr.read_of_operand g (Nat.le_refl _) fun _ _ _ _ => string_operand s
  | .table fields, g => by
      refine Expr.read_of_operand g (Nat.le_refl _) ?_
      intro room d sum shallow
      rw [Expr.grouped] at g
      rw [Expr.depth] at shallow
      exact table_operand g (fields.read limit g room d sum shallow)
  | .function ps body, g => by
      refine Expr.read_of_operand g (Nat.le_refl _) ?_
      intro room d sum shallow
      rw [Expr.grouped] at g
      rw [Expr.depth] at shallow
      exact function_operand (findsBody_of_read (body_read limit body g) sum shallow)
  | .group e, g => by
      refine Expr.read_of_operand g (Nat.le_refl _) ?_
      intro room d sum shallow
      rw [Expr.grouped] at g
      rw [Expr.depth] at shallow
      exact group_operand ((e.read limit g).finds sum shallow e.fits_comma (by decide))
  | .member base part, g => by
      refine Expr.read_of_operand g (Nat.le_refl _) ?_
      intro room d sum shallow
      rw [Expr.grouped, Bool.and_eq_true] at g
      rw [Expr.depth] at shallow
      exact member_operand g.1
        ((base.read limit g.2).operand room d sum shallow (Expr.closed_of_isBase g.1)) part
  | .index base i, g => by
      refine Expr.read_of_operand g (Nat.le_refl _) ?_
      intro room d sum shallow
      simp only [Expr.grouped, Bool.and_eq_true] at g
      obtain ⟨⟨⟨isBase, g⟩, fits⟩, gi⟩ := g
      rw [Expr.depth, Nat.max_le] at shallow
      exact index_operand isBase
        ((base.read limit g).operand room d sum shallow.1 (Expr.closed_of_isBase isBase))
        ((i.read limit gi).finds sum shallow.2 fits (by decide))
  | .call base args, g => by
      refine Expr.read_of_operand g (Nat.le_refl _) ?_
      intro room d sum shallow
      simp only [Expr.grouped, Bool.and_eq_true] at g
      obtain ⟨⟨isBase, g⟩, ga⟩ := g
      rw [Expr.depth, Nat.max_le] at shallow
      exact call_operand isBase
        ((base.read limit g).operand room d sum shallow.1 (Expr.closed_of_isBase isBase)) ga
        (args.read limit ga room d sum shallow.2)
  | .methodCall base method args, g => by
      refine Expr.read_of_operand g (Nat.le_refl _) ?_
      intro room d sum shallow
      simp only [Expr.grouped, Bool.and_eq_true] at g
      obtain ⟨⟨isBase, g⟩, ga⟩ := g
      rw [Expr.depth, Nat.max_le] at shallow
      exact methodCall_operand isBase
        ((base.read limit g).operand room d sum shallow.1 (Expr.closed_of_isBase isBase)) method ga
        (args.read limit ga room d sum shallow.2)
  | .update e op, g => by
      refine Expr.read_of_operand g (Nat.le_refl _) ?_
      intro room d sum shallow
      simp only [Expr.grouped, Bool.and_eq_true, decide_eq_true_eq] at g
      rw [Expr.depth] at shallow
      exact update_operand ((e.read limit g.2).operand room d sum shallow g.1) op
  | .unary op e, g => by
      refine Expr.read_of_operation (show Power.unary < Power.closed by decide)
        fun room d sum shallow => ?_
      rw [Expr.grouped, Bool.and_eq_true] at g
      rw [Expr.depth] at shallow
      exact unary_operation op ((e.read limit g.2).finds sum shallow g.1 (by decide))
  | .binary op l r, g => by
      refine Expr.read_of_operation (Nat.lt_succ_of_le (Kind.le_eleven_of_binary? op.binds))
        fun room d sum shallow => ?_
      simp only [Expr.grouped, Bool.and_eq_true, decide_eq_true_eq] at g
      obtain ⟨⟨⟨fitsLeft, gl⟩, fits⟩, gr⟩ := g
      rw [Expr.depth, Nat.max_le] at shallow
      exact binary_operation fitsLeft ((l.read limit gl).operation room d sum shallow.1)
        ((r.read limit gr).finds sum shallow.2 fits op.rightPower_le)
  | .list first second more, g => by
      refine Expr.read_of_operation (show Power.comma < Power.closed by decide)
        fun room d sum shallow => ?_
      simp only [Expr.grouped, Bool.and_eq_true, decide_eq_true_eq] at g
      obtain ⟨⟨⟨⟨fitsFirst, gf⟩, fits⟩, gs⟩, gm⟩ := g
      rw [Expr.depth, Nat.max_le, Nat.max_le] at shallow
      have read := (second.read limit gs).finds sum shallow.2.1 fits (by decide)
      refine list_operation fitsFirst ((first.read limit gf).operation room d sum shallow.1)
        fun e mem => ?_
      rcases List.mem_cons.mp mem with rfl | mem
      · exact read
      · exact exprs_read limit more gm room d sum shallow.2.2 e mem

theorem exprs_read (limit : Nat) : ∀ es : List Expr, groupedAll es = true →
    ∀ room d, d + room = limit → depthAll es ≤ room →
      ∀ e ∈ es, (Level.stack limit room).Finds d Power.assignment e
  | [], _ => fun _ _ _ _ e mem => by cases mem
  | x :: es, g => by
      intro room d sum shallow e mem
      rw [groupedAll, Bool.and_eq_true, Bool.and_eq_true] at g
      rw [depthAll, Nat.max_le] at shallow
      have read := (x.read limit g.1.2).finds sum shallow.1 g.1.1 (by decide)
      rcases List.mem_cons.mp mem with rfl | mem
      · exact read
      · exact exprs_read limit es g.2 room d sum shallow.2 e mem

theorem Arguments.read (limit : Nat) : ∀ args : Arguments, args.grouped = true →
    ∀ room d, d + room = limit → args.depth ≤ room →
      FindsArguments (.stack limit room) d args
  | .values es, g => fun room d sum shallow => by
      rw [Arguments.grouped] at g
      rw [Arguments.depth] at shallow
      exact exprs_read limit es g room d sum shallow
  | .string _, _ => fun _ _ _ _ => trivial
  | .table fields, g => fun room d sum shallow => by
      rw [Arguments.grouped] at g
      rw [Arguments.depth] at shallow
      exact fields.read limit g room d sum shallow

theorem Fields.read (limit : Nat) : ∀ fields : Fields, fields.grouped = true →
    ∀ room d, d + room = limit → fields.depth ≤ room →
      FindsFields (.stack limit room) d fields
  | .none, _ => fun _ _ _ _ => trivial
  | .last field, g => fun room d sum shallow => by
      rw [Fields.grouped] at g
      rw [Fields.depth] at shallow
      exact field.read limit g room d sum shallow
  | .more field _ rest, g => fun room d sum shallow => by
      rw [Fields.grouped, Bool.and_eq_true] at g
      rw [Fields.depth, Nat.max_le] at shallow
      exact ⟨field.read limit g.1 room d sum shallow.1, rest.read limit g.2 room d sum shallow.2⟩

theorem Field.read (limit : Nat) : ∀ field : Field, field.grouped = true →
    ∀ room d, d + room = limit → field.depth ≤ room →
      FindsField (.stack limit room) d field
  | .value e, g => fun room d sum shallow => by
      rw [Field.grouped, Bool.and_eq_true] at g
      rw [Field.depth] at shallow
      exact (e.read limit g.2).finds sum shallow g.1 (by decide)
  | .named _ e, g => fun room d sum shallow => by
      rw [Field.grouped, Bool.and_eq_true] at g
      rw [Field.depth] at shallow
      exact (e.read limit g.2).finds sum shallow g.1 (by decide)
  | .keyed key e, g => fun room d sum shallow => by
      simp only [Field.grouped, Bool.and_eq_true] at g
      obtain ⟨⟨⟨fitsKey, gk⟩, fits⟩, ge⟩ := g
      rw [Field.depth, Nat.max_le] at shallow
      exact ⟨(key.read limit gk).finds sum shallow.1 fitsKey (by decide),
        (e.read limit ge).finds sum shallow.2 fits (by decide)⟩

theorem Declarator.read (limit : Nat) : ∀ x : Declarator, x.grouped = true →
    ∀ room d, d + room = limit → x.depth ≤ room → FindsDeclarator (.stack limit room) d x
  | .plain _, _ => fun _ _ _ _ => trivial
  | .assigned _ e, g => fun room d sum shallow => by
      rw [Declarator.grouped, Bool.and_eq_true] at g
      rw [Declarator.depth] at shallow
      exact (e.read limit g.2).finds sum shallow g.1 (by decide)

theorem declarators_read (limit : Nat) : ∀ xs : List Declarator, groupedDeclarators xs = true →
    ∀ room d, d + room = limit → declaratorsDepth xs ≤ room →
      ∀ x ∈ xs, FindsDeclarator (.stack limit room) d x
  | [], _ => fun _ _ _ _ x mem => by cases mem
  | y :: xs, g => by
      intro room d sum shallow x mem
      rw [groupedDeclarators, Bool.and_eq_true] at g
      rw [declaratorsDepth, Nat.max_le] at shallow
      have read := y.read limit g.1 room d sum shallow.1
      rcases List.mem_cons.mp mem with rfl | mem
      · exact read
      · exact declarators_read limit xs g.2 room d sum shallow.2 x mem

theorem Stmt.read (limit : Nat) : ∀ s : Stmt, s.grouped = true → s.Read limit
  | .declaration heading first more, g => by
      intro room d sum shallow
      rw [Stmt.grouped, Bool.and_eq_true] at g
      rw [Stmt.depth, Nat.max_le] at shallow
      have read := first.read limit g.1 room d sum shallow.1
      refine declaration_read ?_
      intro x mem
      rcases List.mem_cons.mp mem with rfl | mem
      · exact read
      · exact declarators_read limit more g.2 room d sum shallow.2 x mem
  | .block b body, g => by
      intro room d sum shallow
      rw [Stmt.grouped] at g
      rw [Stmt.depth] at shallow
      exact block_read b (findsBody_of_read (body_read limit body g) sum shallow)
  | .struct name body, g => by
      intro room d sum shallow
      rw [Stmt.grouped] at g
      rw [Stmt.depth] at shallow
      exact struct_read name (findsBody_of_read (body_read limit body g) sum shallow)
  | .whileLoop c body, g => by
      intro room d sum shallow
      simp only [Stmt.grouped, Bool.and_eq_true] at g
      rw [Stmt.depth, Nat.max_le] at shallow
      exact whileLoop_read ((c.read limit g.1.2).finds sum shallow.1 g.1.1 (by decide))
        (findsBody_of_read (body_read limit body g.2) sum shallow.2)
  | .repeatLoop body c, g => by
      intro room d sum shallow
      simp only [Stmt.grouped, Bool.and_eq_true] at g
      rw [Stmt.depth, Nat.max_le] at shallow
      exact repeatLoop_read ((c.read limit g.1.2).finds sum shallow.1 g.1.1 (by decide))
        (findsBody_of_read (body_read limit body g.2) sum shallow.2)
  | .conditional c body branches, g => by
      intro room d sum shallow
      simp only [Stmt.grouped, Bool.and_eq_true] at g
      obtain ⟨⟨⟨fits, gc⟩, gb⟩, gr⟩ := g
      rw [Stmt.depth, Nat.max_le, Nat.max_le] at shallow
      exact conditional_read ((c.read limit gc).finds sum shallow.1 fits (by decide))
        (findsBody_of_read (body_read limit body gb) sum shallow.2.1)
        (branches.read limit gr room d sum shallow.2.2)
  | .function name ps body, g => by
      intro room d sum shallow
      rw [Stmt.grouped] at g
      rw [Stmt.depth] at shallow
      exact function_read name ps (findsBody_of_read (body_read limit body g) sum shallow)
  | .returns es, g => by
      intro room d sum shallow
      rw [Stmt.grouped] at g
      rw [Stmt.depth] at shallow
      exact returns_read (exprs_read limit es g room d sum shallow) g
  | .breaks, _ => fun _ _ _ _ => breaks_read
  | .empty, _ => fun _ _ _ _ => empty_read
  | .expression e, g => by
      intro room d sum shallow
      rw [Stmt.grouped] at g
      rw [Stmt.depth] at shallow
      exact expression_read g ((e.read limit g).finds sum shallow e.fits_comma (by decide))

theorem body_read (limit : Nat) : ∀ ss : List Stmt, groupedBody ss = true →
    ∀ s ∈ ss, s.grouped = true ∧ s.Read limit
  | [], _ => fun s mem => by cases mem
  | x :: ss, g => by
      intro s mem
      rw [groupedBody, Bool.and_eq_true] at g
      have read := x.read limit g.1
      rcases List.mem_cons.mp mem with rfl | mem
      · exact ⟨g.1, read⟩
      · exact body_read limit ss g.2 s mem

theorem Branches.read (limit : Nat) : ∀ branches : Branches, branches.grouped = true →
    ∀ room d, d + room = limit → branches.depth ≤ room →
      FindsBranches (.stack limit room) d branches
  | .done, _ => fun _ _ _ _ => trivial
  | .otherwise body, g => fun room d sum shallow => by
      rw [Branches.grouped] at g
      rw [Branches.depth] at shallow
      exact findsBody_of_read (body_read limit body g) sum shallow
  | .elseif c body rest, g => fun room d sum shallow => by
      simp only [Branches.grouped, Bool.and_eq_true] at g
      obtain ⟨⟨⟨fits, gc⟩, gb⟩, gr⟩ := g
      rw [Branches.depth, Nat.max_le, Nat.max_le] at shallow
      exact ⟨(c.read limit gc).finds sum shallow.1 fits (by decide),
        findsBody_of_read (body_read limit body gb) sum shallow.2.1,
        rest.read limit gr room d sum shallow.2.2⟩

end

end Abstract

namespace Program

theorem step_of_start {f : Frame} (starts : f.current.canStartStatement = true) :
    step inner f = (f.child none (Statement.statement inner), true) := by
  unfold step
  dsimp only
  rw [if_neg (Kind.ne_eof_of_canStartStatement starts), if_pos starts]

theorem step_of_eof {f : Frame} (ends : f.current = .eof) : step inner f = (f, false) := if_pos ends

/-- A stream of words alone is read from the first of them. -/
theorem at_ofTokens {tokens words : List Token}
    (legible : words.all Token.isSignificant = true)
    (written : (Items.beforeEof tokens).map Token.bare = words) :
    (Parser.ofTokens tokens).At 0 words := by
  have significant : ∀ t ∈ Items.beforeEof tokens, t.isSignificant = true := by
    intro t mem
    have word : t.bare ∈ words := written ▸ List.mem_map_of_mem mem
    exact List.all_eq_true.mp legible t.bare word
  obtain ⟨all, none⟩ := Items.group_of_significant #[] significant
  have items : (Parser.ofTokens tokens).ahead.toList =
      (Items.beforeEof tokens).map (Item.mk []) := all
  refine ⟨?_, ?_, rfl, none, rfl, rfl, ?_⟩
  · rw [items, List.map_map]
    exact written
  · intro item mem
    rw [items] at mem
    obtain ⟨t, _, rfl⟩ := List.mem_map.mp mem
    rfl
  · intro k mem
    cases mem

theorem bare_finish {cs : List Tree} {f : Frame} (h : f.Holds .program cs d []) :
    (finish f).bare = build .program cs := by
  have at_ := h.parser
  have children : (f.flush.children ++ f.parser.trailing).toList = f.children.toList := by
    simp [Frame.flush, at_.pending, at_.trailing]
  unfold finish
  dsimp only
  rw [children, Tree.bare, h.children, build]

/-- Whatever nests no deeper than the limit is read as it is meant. -/
theorem parseWithin_written {limit : Nat} {ss : List Stmt} (grouped : groupedBody ss = true)
    (shallow : bodyDepth ss ≤ limit) {tokens : List Token}
    (written : (Items.beforeEof tokens).map Token.bare = (programTree ss).leaves) :
    (parseWithin limit tokens).2 = [] ∧ (parseWithin limit tokens).1.bare = programTree ss := by
  have legible : (programTree ss).leaves.all Token.isSignificant = true := by
    rw [programTree, leaves_build]
    exact legible_body ss
  have start := at_ofTokens legible written
  rw [programTree, leaves_build, ← List.append_nil (leavesAll _)] at start
  have reads : ∀ s ∈ ss, s.grouped = true ∧ Statement.Reads (.stack limit limit) 0 s := by
    intro s mem
    obtain ⟨g, read⟩ := body_read limit ss grouped s mem
    exact ⟨g, read limit 0 (Nat.zero_add _) (Nat.le_trans (depth_le_bodyDepth mem) shallow)⟩
  have holds := Statement.statements_hold (fun g starts _ => step_of_start starts)
    (fun g (ends : g.current = firstKind []) => step_of_eof ends) reads (start.start .program)
  refine ⟨?_, bare_finish holds⟩
  unfold parseWithin
  dsimp only
  rw [holds.parser.errors]

/-- **The whole grammar is accepted.** A program that is written out, with a semicolon after each
statement, is read without errors, and its tree is the one that is meant. -/
theorem parse_written (ss : List Stmt) (grouped : groupedBody ss = true)
    (shallow : bodyDepth ss ≤ maxDepth) (tokens : List Token)
    (written : (Items.beforeEof tokens).map Token.bare = (programTree ss).leaves) :
    (parse tokens).2 = [] ∧ (parse tokens).1.bare = programTree ss :=
  parseWithin_written grouped shallow written

/-- `while x < 1 do f(x).n = -x ^ 2; end;` -/
theorem parse_written_loop :
    let less : BinaryOperator := ⟨.lt, 6, .left, rfl, by decide⟩
    let assign : BinaryOperator := ⟨.equals, 2, .right, rfl, by decide⟩
    let toThe : BinaryOperator := ⟨.caret, 11, .right, rfl, by decide⟩
    let statements : List Stmt :=
      [.whileLoop (.binary less (.name "x") (.number "1"))
        [.expression (.binary assign (.member (.call (.name "f") (.values [.name "x"])) "n")
          (.unary ⟨.minus, rfl⟩ (.binary toThe (.name "x") (.number "2"))))]]
    let tokens : List Token :=
      [⟨.kwWhile, "while", default⟩, ⟨.identifier, "x", default⟩, ⟨.lt, "<", default⟩,
        ⟨.number, "1", default⟩, ⟨.kwDo, "do", default⟩, ⟨.identifier, "f", default⟩,
        ⟨.lParen, "(", default⟩, ⟨.identifier, "x", default⟩, ⟨.rParen, ")", default⟩,
        ⟨.dot, ".", default⟩, ⟨.identifier, "n", default⟩, ⟨.equals, "=", default⟩,
        ⟨.minus, "-", default⟩, ⟨.identifier, "x", default⟩, ⟨.caret, "^", default⟩,
        ⟨.number, "2", default⟩, ⟨.semicolon, ";", default⟩, ⟨.kwEnd, "end", default⟩,
        ⟨.semicolon, ";", default⟩, ⟨.eof, "", default⟩]
    (parse tokens).2 = [] ∧ (parse tokens).1.bare = programTree statements :=
  parse_written _ (by decide) (by decide) _ (by decide)

end Program

end JassSyntax
