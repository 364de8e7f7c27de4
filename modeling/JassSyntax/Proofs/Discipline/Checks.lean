import JassSyntax.Proofs.Shape.Attachment
import JassSyntax.Proofs.Simulation.Statements

/-!
# A parser that checks itself

Three pieces of a parser's state are changed in pairs that stand far apart: the depth of nesting,
the closers of the open blocks, and the comments that wait for a parent. Here a parser counts the
calls in progress on its own, and checks these three whenever it begins or ends an expression, a
body or a statement. As soon as one of them is not as it should be it goes astray, and reads in a
way that nothing is known about. It reads every program as the parser does that checks nothing. So
at no moment of any parse does a check fail.
-/

namespace JassSyntax

/-! ## What is checked -/

namespace Parser

/-- The depth is the number of calls in progress, and the limit allows for it. -/
structure Nested (limit calls : Nat) (p : Parser) : Prop where
  depth : p.depth = calls
  within : p.depth ≤ limit

/-- Where something may begin: besides, no comments wait. -/
structure Poised (limit calls : Nat) (p : Parser) : Prop extends p.Nested limit calls where
  pending : p.pending = []

/-- The depth and the closers are what they were. -/
structure Regained (p q : Parser) : Prop where
  depth : q.depth = p.depth
  openClosers : q.openClosers = p.openClosers

/-- Behind a statement or a body: besides, no comments wait. -/
structure Cleared (p q : Parser) : Prop extends p.Regained q where
  pending : q.pending = []

/-- Behind any part of an expression: besides, if comments wait, it is a single token, and they are
the comments in front of it. -/
structure Restored (p : Parser) (e : Tree × Parser) : Prop extends p.Regained e.2 where
  pending : p.HoldsBack e

variable {p q : Parser} {t : Tree} {limit calls : Nat}

theorem Later.regained (later : p.Later q) : p.Regained q := ⟨later.depth, later.openClosers⟩

theorem Nested.later (h : p.Nested limit calls) (later : p.Later q) : q.Nested limit calls :=
  ⟨later.depth.trans h.depth, later.depth.symm ▸ h.within⟩

theorem Restored.of_reads (reads : Reads p t q) (free : p.pending = []) : p.Restored (t, q) :=
  ⟨reads.later.regained, reads.holdsBack free⟩

theorem Cleared.of_reads (reads : Reads p t q) (free : p.pending = []) (node : t.isNode = true) :
    p.Cleared q :=
  ⟨reads.later.regained, reads.pending_nil free node⟩

theorem Cleared.of_grows {f g : Frame} (grown : Grows f g) (free : f.parser.pending = []) :
    f.parser.Cleared g.parser :=
  ⟨grown.later.regained, grown.pending_nil free⟩

theorem Poised.later (h : p.Poised limit calls) (later : p.Later q)
    (same : q.pending = p.pending) : q.Poised limit calls :=
  ⟨h.toNested.later later, same.trans h.pending⟩

theorem Poised.grows {f g : Frame} (h : f.parser.Poised limit calls) (grown : Grows f g) :
    g.parser.Poised limit calls :=
  ⟨h.toNested.later grown.later, grown.pending_nil h.pending⟩

/-- The parser with one more call in progress. -/
def descended (p : Parser) : Parser := { p with depth := p.depth + 1 }

theorem descend?_of_lt (room : p.depth < limit) : p.descend? limit = some p.descended :=
  if_pos room

theorem Poised.descended (h : p.Poised limit calls) (room : p.depth < limit) :
    p.descended.Poised limit (calls + 1) :=
  ⟨⟨congrArg (· + 1) h.depth, room⟩, h.pending⟩

theorem Nested.ascend (h : p.Nested limit (calls + 1)) : p.ascend.Nested limit calls :=
  ⟨congrArg (· - 1) h.depth, Nat.le_trans (Nat.sub_le _ _) h.within⟩

end Parser

open Classical in
/-- Does as `f`, if what is asked for holds before and after, and else goes astray. -/
noncomputable def guarded {α β : Type} (before : α → Prop) (after : α → β → Prop)
    (astray f : α → β) (a : α) : β :=
  if before a ∧ after a (f a) then f a else astray a

/-! ## The grammar with its calls laid open -/

namespace Statement

variable (read : Parser → Tree × Parser)

/-- One statement of a body, where statements are read by `read`. -/
def bodyStepBy (construct : NodeKind) (terminators : List Kind) (f : Frame) : Frame × Bool :=
  if Level.EndsBody terminators f then (f, false)
  else if f.current.canStartStatement then (f.child none read, true)
  else ((f.complain (misfit construct terminators f.current)).skipAsError, true)

/-- A body, where statements are read by `read`. -/
def bodyBy (terminators : List Kind) (f : Frame) : Frame :=
  let block := (f.parser.start .block).loop (bodyStepBy read f.kind terminators)
  if block.children.isEmpty then { f with parser := block.parser }
  else f.child (some .body) fun _ => block.finish

theorem bodyStepBy_statement (inner : Level) : bodyStepBy (statement inner) = bodyStep inner := by
  funext construct terminators f
  exact (bodyStep_eq inner construct terminators f).symm

theorem bodyBy_statement (inner : Level) : bodyBy (statement inner) = body inner := by
  funext terminators f
  unfold bodyBy
  rw [bodyStepBy_statement]
  rfl

end Statement

/-- One statement of a program, where statements are read by `read`. -/
def Program.stepBy (read : Parser → Tree × Parser) (f : Frame) : Frame × Bool :=
  if f.current = .eof then (f, false)
  else if f.current.canStartStatement then (f.child none read, true)
  else ((f.complain .strayAtTopLevel).skipAsError, true)

namespace Level

/-- The grammar around `inner`, where statements are read by `read`. -/
def grammar (read : Parser → Tree × Parser) (inner : Level) : Level :=
  ⟨Expression.binding inner, Statement.bodyBy read⟩

/-- A level one deeper, as long as the limit leaves room. -/
def nested (limit : Nat) (u : Level) : Level where
  binding power p :=
    match p.descend? limit with
    | none => (cutOff limit).binding power p
    | some p =>
      let (t, p) := u.binding power p
      (t, p.ascend)
  body terminators f :=
    match f.parser.descend? limit with
    | none => (cutOff limit).body terminators f
    | some parser =>
      let f := u.body terminators { f with parser }
      { f with parser := f.parser.ascend }

variable {limit : Nat} {u : Level}

theorem nested_binding_of_lt {power : Nat} {p : Parser} (room : p.depth < limit) :
    (nested limit u).binding power p =
      ((u.binding power p.descended).1, (u.binding power p.descended).2.ascend) := by
  unfold nested
  dsimp only
  rw [Parser.descend?_of_lt room]

theorem nested_body_of_lt {terminators : List Kind} {f : Frame} (room : f.parser.depth < limit) :
    (nested limit u).body terminators f =
      let g := u.body terminators { f with parser := f.parser.descended }
      { g with parser := g.parser.ascend } := by
  unfold nested
  dsimp only
  rw [Parser.descend?_of_lt room]

theorem nested_grammar (limit : Nat) (inner : Level) :
    nested limit (grammar (Statement.statement inner) inner) = inner.above limit := by
  unfold nested grammar
  rw [Statement.bodyBy_statement]
  rfl

/-! ## The parser that checks itself -/

/-- A level that checks each of its calls, inside of so many others. -/
noncomputable def watched (limit calls : Nat) (u astray : Level) : Level where
  binding power :=
    guarded (Parser.Poised limit calls) Parser.Restored (astray.binding power) (u.binding power)
  body terminators :=
    guarded (fun f => f.parser.Poised limit calls) (fun f g => f.parser.Cleared g.parser)
      (astray.body terminators) (u.body terminators)

variable {calls : Nat} {astray : Level}

theorem watched_binding {power : Nat} {p : Parser} (poised : p.Poised limit calls)
    (restored : p.Restored (u.binding power p)) :
    (u.watched limit calls astray).binding power p = u.binding power p :=
  if_pos ⟨poised, restored⟩

theorem watched_body {terminators : List Kind} {f : Frame} (poised : f.parser.Poised limit calls)
    (cleared : f.parser.Cleared (u.body terminators f).parser) :
    (u.watched limit calls astray).body terminators f = u.body terminators f :=
  if_pos ⟨poised, cleared⟩

/-- A statement that checks itself, inside of so many calls. -/
noncomputable def watchedStatement (limit calls : Nat) (inner astray : Level) :
    Parser → Tree × Parser :=
  guarded (Parser.Poised limit calls) (fun p e => p.Cleared e.2) astray.expressionList
    (Statement.statement inner)

theorem watchedStatement_eq {p : Parser} (poised : p.Poised limit calls)
    (cleared : p.Cleared (Statement.statement u p).2) :
    u.watchedStatement limit calls astray p = Statement.statement u p :=
  if_pos ⟨poised, cleared⟩

/-- As `stack`, with checks at every call. Each level counts the calls outside of it, and has one
more in progress once it has descended. -/
noncomputable def watchedStack (limit : Nat) (astray : Level) : (room calls : Nat) → Level
  | 0, calls => (cutOff limit).watched limit calls astray
  | room + 1, calls =>
    let inner := watchedStack limit astray room (calls + 1)
    let inside := grammar (inner.watchedStatement limit (calls + 1) astray) inner
    (nested limit (inside.watched limit (calls + 1) astray)).watched limit calls astray

end Level

/-- As `parseWithin`, with checks at every call. -/
noncomputable def Program.watched (limit : Nat) (astray : Level) (tokens : List Token) :
    Tree × List ParseError :=
  let read := (Level.watchedStack limit astray limit 0).watchedStatement limit 0 astray
  let f := ((Parser.ofTokens tokens).start .program).loop (stepBy read)
  (finish f, f.parser.errors.toList)

end JassSyntax
