import JassSyntax.Proofs.Derivation.Production
import JassSyntax.Proofs.Reading.Conservation
import JassSyntax.Proofs.Simulation.Basic

/-!
# Courses of reading

A trace tells how a tree was read, but not why a body ended where it did or what a skipped token
was. `Forms`, `Gains` and `Fills` tell that too. A construct with a closer has a heading, then what
its closer is awaited behind, then the closer or a placeholder. What stands where the closer should
be has a reason to stand there; what is put aside is one token that nobody around waits for, or a
region beyond the nesting limit; and the parts of a string are taken together.
-/

namespace JassSyntax

/-! ## Kinds of node -/

/-- What can be found in a tree. -/
inductive Scope where
  /-- Names and marks. -/
  | words
  | expression
  | statement
  deriving DecidableEq

/-- How much can be found. -/
def Scope.rank : Scope → Nat
  | words => 0
  | expression => 1
  | statement => 2

instance : LE Scope := ⟨fun r s => r.rank ≤ s.rank⟩

instance (r s : Scope) : Decidable (r ≤ s) := inferInstanceAs (Decidable (r.rank ≤ s.rank))

theorem Scope.words_le (s : Scope) : Scope.words ≤ s := Nat.zero_le _

theorem Scope.le_statement (s : Scope) : s ≤ .statement := by
  cases s <;> decide

namespace NodeKind

/-- The least that nodes of the kind are part of. -/
def scope : NodeKind → Scope
  | .functionName | .parameters | .parameter | .string => .words
  | .binaryExpression | .unaryExpression | .updateExpression | .assignmentExpression
  | .expressionList | .parenthesizedExpression | .memberExpression | .indexExpression
  | .functionCall | .arguments | .tableConstructor | .field | .functionExpression | .error =>
    .expression
  | _ => .statement

/-- What a child in the role can be, if it is neither a body nor a further branch. -/
def holds : NodeKind → Option Role → Scope
  | .program, _ | .block, _ => .statement
  | .variableDeclaration, role => if role = some .declarator then .statement else .words
  | .declarator, role => if role = some .value then .expression else .words
  | .whileStatement, role | .ifStatement, role | .repeatStatement, role =>
    if role = some .condition then .expression else .words
  | .functionName, _ | .parameters, _ | .parameter, _ | .string, _ | .functionDefinition, _
  | .functionExpression, _ | .structDefinition, _ | .globalsBlock, _ | .loopStatement, _
  | .doStatement, _ | .elseClause, _ | .breakStatement, _ | .emptyStatement, _
  | .blockComment, _ => .words
  | _, _ => .expression

/-- A branch of a conditional after its first. -/
def isClause : NodeKind → Bool
  | .elseifClause | .elseClause => true
  | _ => false

/-- Nodes of a program without a body, whose tokens are taken one by one. -/
def isSimple (k : NodeKind) : Bool :=
  k.isConstruct && k.closer.isNone && !k.isClause && k != .string

/-- The keyword at which a construct with a closer begins. -/
def opening? : NodeKind → Option Kind
  | .functionDefinition | .functionExpression => some .kwFunction
  | .ifStatement => some .kwIf
  | .whileStatement => some .kwWhile
  | .doStatement => some .kwDo
  | .structDefinition => some .kwStruct
  | .globalsBlock => some .kwGlobals
  | .loopStatement => some .kwLoop
  | .repeatStatement => some .kwRepeat
  | _ => none

/-- What the bodies of a construct end at. For a conditional this is the same in all its branches,
also in the last one. -/
def awaits : NodeKind → List Kind
  | .ifStatement => Statement.branchEnds
  | k => k.closer.toList

theorem isConstruct_of_isSimple {k : NodeKind} (h : k.isSimple = true) : k.isConstruct = true := by
  revert h
  cases k <;> decide

theorem isConstruct_of_isClause {k : NodeKind} (h : k.isClause = true) : k.isConstruct = true := by
  revert h
  cases k <;> decide

theorem awaits_ne_nil {k : NodeKind} {closer : Kind} (closes : k.closer = some closer) :
    k.awaits ≠ [] := by
  revert closes
  cases k <;> (rintro ⟨⟩ <;> exact List.cons_ne_nil _ _)

theorem awaits_closing (k : NodeKind) : ∀ w ∈ k.awaits, w.isClosingKeyword = true := by
  cases k <;> decide

/-- Only conditionals end their bodies at more than their closer. -/
theorem awaits_cases {k : NodeKind} {w : Kind} (waits : w ∈ k.awaits) :
    w ∈ k.closer.toList ∨ k = .ifStatement ∧ (w = .kwElseIf ∨ w = .kwElse) := by
  revert w
  cases k <;> decide

theorem ne_stringStart_of_opening? {k : NodeKind} {w : Kind} (opens : k.opening? = some w) :
    w ≠ .stringStart := by
  revert opens
  cases k <;> (rintro ⟨⟩ <;> exact Kind.noConfusion)

/-- No construct begins at the end of input. -/
theorem ne_eof_of_opening? {k : NodeKind} {w : Kind} (opens : k.opening? = some w) :
    w ≠ .eof := by
  revert opens
  cases k <;> (rintro ⟨⟩ <;> exact Kind.noConfusion)

/-- A role of a child that is neither a body nor a further branch, nor the closer. -/
def Outside (k : NodeKind) (role : Option Role) : Prop :=
  role ≠ some .body ∧ role ≠ some .alternative ∧ (role = some .closing → k.closer = none)

instance (k : NodeKind) (role : Option Role) : Decidable (k.Outside role) :=
  inferInstanceAs (Decidable (_ ∧ _ ∧ _))

end NodeKind

/-- What can stand where a construct should close: its closer, the end of input, what a body around
it ends at, and, behind the last branch of a conditional, what would begin another one. -/
def Frame.Stops (kind : NodeKind) (outer : List Kind) (f : Frame) : Prop :=
  some f.current = kind.closer ∨ f.current = .eof ∨ f.current ∈ outer ∨
    kind = .ifStatement ∧ (f.current = .kwElseIf ∨ f.current = .kwElse) ∧
      ∃ c ∈ f.children.toList, c.nodeKind? = some .elseClause

/-- There is a name, which is no placeholder. -/
def Frame.Named (f : Frame) : Prop :=
  ∃ n ∈ f.children.toList, n.role = some .name ∧ n.isMissing = false

theorem Frame.Named.of_prefix {f g : Frame} (named : f.Named)
    (kept : f.children.toList <+: g.children.toList) : g.Named := by
  obtain ⟨n, child, role, there⟩ := named
  exact ⟨n, kept.subset child, role, there⟩

/-- The current token is neither a keyword that closes nor the opening quote of a string. -/
structure Parser.Misplaced (p : Parser) : Prop where
  here : p.kind ≠ .eof
  mild : p.kind.isClosingKeyword = false
  plain : p.kind ≠ .stringStart

/-- A region beyond the nesting limit is an operand, or what there is of a body. -/
inductive Parser.Region (p : Parser) : Level.Extent → Prop
  | operand : p.Region .operand
  | body {terminators : List Kind}
      (closing : ∀ k ∈ terminators, k.isClosingKeyword = true) :
      p.Region (.upTo fun k => terminators.contains k || p.closesOpenBlock k)

namespace Parser

variable {p : Parser}

theorem misplaced_of_isStray (stray : p.kind.isStray = true) : p.Misplaced := by
  refine ⟨Kind.ne_eof_of_isStray stray, ?_, ?_⟩ <;> revert stray <;> cases p.kind <;> decide

theorem misplaced_of_separator (separator : p.kind = .comma ∨ p.kind = .semicolon) :
    p.Misplaced := by
  refine ⟨Kind.ne_eof_of_separator separator, ?_, ?_⟩ <;>
    rcases separator with h | h <;> rw [h] <;> decide

end Parser

/-! ## Courses -/

mutual

/-- At the first parser a tree of the scope is read, and reading goes on at the second. -/
inductive Forms : Scope → Parser → Tree → Parser → Prop
  /-- An operand of one token. -/
  | leaf {s : Scope} {p : Parser} {item : Item} (here : p.ahead.head? = some item)
      (operand : item.token.kind.isOperand = true) : Forms s p p.takeLeaf.1 p.takeLeaf.2
  | string {s : Scope} {p : Parser} {f : Frame} (here : p.kind = .stringStart)
      (gained : Gains .string (p.start .string) f) (whole : Expression.string p = f.finish) :
      Forms s p f.finish.1 f.finish.2
  | node {s : Scope} {p : Parser} {f : Frame} (kind : NodeKind) (simple : kind.isSimple = true)
      (within : kind.scope ≤ s) (gained : Gains kind (p.start kind) f) :
      Forms s p f.finish.1 f.finish.2
  /-- A node that begins with a tree that has been read. -/
  | around {r s : Scope} {p q : Parser} {t : Tree} {role : Option Role} {f : Frame}
      (kind : NodeKind) (simple : kind.isSimple = true) (within : kind.scope ≤ s)
      (first : Forms r p t q) (held : r ≤ kind.holds role) (outside : kind.Outside role)
      (gained : Gains kind ((q.start kind).attach role t) f) : Forms s p f.finish.1 f.finish.2
  /-- A construct with a closer. Nothing comes behind a closer that is not there, and what begins as
  a function without a name is none that is defined. -/
  | block {s : Scope} {p : Parser} {g h f : Frame} (kind : NodeKind) {closer : Kind}
      (closes : kind.closer = some closer) (opens : kind.opening? = some p.kind)
      (within : kind.scope ≤ s) (heading : Gains kind (p.start kind).bump g)
      (inside : Fills (g.entered kind.awaits) h) (stops : h.Stops kind g.parser.openClosers)
      (behind : Gains kind (g.left h) f) (nothing : h.current ≠ closer → f = g.left h)
      (named : kind = .functionDefinition → g.Named) : Forms s p f.finish.1 f.finish.2
  | clause {p : Parser} {g f : Frame} (kind : NodeKind) (clause : kind.isClause = true)
      (heading : Gains kind (p.start kind) g) (inside : Fills g f) :
      Forms .statement p f.finish.1 f.finish.2
  /-- A placeholder for an operand. -/
  | absent {s : Scope} {p : Parser} {c : Complaint} {kind : Kind}
      (other : c.sort ≠ .missingCloser) : Forms s p (p.missing kind) (p.complain c)
  /-- A misplaced operator or separator. -/
  | mark {s : Scope} {p : Parser} {c : Complaint} (misplaced : p.Misplaced)
      (other : c.sort ≠ .missingCloser) :
      Forms s p ((p.complain c).start .error).bump.finish.1
        ((p.complain c).start .error).bump.finish.2
  /-- A misplaced operator and the operand behind it. -/
  | stray {s : Scope} {p : Parser} {c : Complaint} {f : Frame} (misplaced : p.Misplaced)
      (other : c.sort ≠ .missingCloser) (within : Scope.expression ≤ s)
      (gained : Gains .error ((p.complain c).start .error).bump f) : Forms s p f.finish.1 f.finish.2
  /-- A token that begins no statement, and that nobody waits for. -/
  | aside {p : Parser} {c : Complaint} (here : p.kind ≠ .eof)
      (unfit : p.kind.canStartStatement = false) (unawaited : p.kind ∉ p.openClosers)
      (other : c.sort ≠ .missingCloser) :
      Forms .statement p ((p.complain c).start .error).bump.finish.1
        ((p.complain c).start .error).bump.finish.2
  /-- A region beyond the nesting limit. -/
  | tooDeep {s : Scope} {p : Parser} (limit : Nat) {n : Nat} {extent : Level.Extent}
      (region : p.Region extent) (length : Level.regionLength extent 0 p.ahead.toList = n + 1) :
      Forms s p (((Level.complainTooDeep limit p).start .error).bumps (n + 1)).finish.1
        (((Level.complainTooDeep limit p).start .error).bumps (n + 1)).finish.2
  /-- A placeholder for an operand beyond the nesting limit. -/
  | absentTooDeep {s : Scope} {p : Parser} (limit : Nat) :
      Forms s p ((Level.complainTooDeep limit p).missing .identifier)
        (Level.complainTooDeep limit p)
  | noticing {s : Scope} {p q : Parser} {t : Tree} (read : Forms s p.noticeEnd t q) : Forms s p t q
  | nested {s : Scope} {p q : Parser} {t : Tree}
      (read : Forms s { p with depth := p.depth + 1 } t q) : Forms s p t q.ascend

/-- Outside its bodies, the node of the kind gets from the first frame to the second. -/
inductive Gains : NodeKind → Frame → Frame → Prop
  | refl {kind : NodeKind} (f : Frame) : Gains kind f f
  /-- Only a string takes the opening quote of a string. -/
  | bump {kind : NodeKind} {f g : Frame} {role : Option Role} (gained : Gains kind f g)
      (construct : kind.isConstruct = true) (outside : kind.Outside role)
      (plain : g.current = .stringStart → kind = .string) : Gains kind f (g.bump role)
  | attach {s : Scope} {kind : NodeKind} {f g : Frame} {q : Parser} {t : Tree}
      {role : Option Role} (gained : Gains kind f g) (read : Forms s g.parser t q)
      (held : s ≤ kind.holds role) (outside : kind.Outside role) :
      Gains kind f ({ g with parser := q }.attach role t)
  | notice {kind : NodeKind} {f g : Frame} (gained : Gains kind f g) :
      Gains kind f { g with parser := g.parser.noticeEnd }

/-- By its bodies, a node gets from the first frame to the second. -/
inductive Fills : Frame → Frame → Prop
  | refl (f : Frame) : Fills f f
  | body {f g : Frame} {q : Parser} {t : Tree} (filled : Fills f g)
      (read : Forms .statement g.parser t q) (block : t.nodeKind? = some .block) :
      Fills f ({ g with parser := q }.attach (some .body) t)
  | clause {f g : Frame} {q : Parser} {t : Tree} {kind : NodeKind} (filled : Fills f g)
      (read : Forms .statement g.parser t q) (node : t.nodeKind? = some kind)
      (clause : kind.isClause = true) :
      Fills f ({ g with parser := q }.attach (some .alternative) t)
  | nested {f g h : Frame} (filled : Fills f g)
      (inside : Fills { g with parser := { g.parser with depth := g.parser.depth + 1 } } h) :
      Fills f { h with parser := h.parser.ascend }
  /-- A body beyond the nesting limit that ends where it would begin. -/
  | tooDeep {f g : Frame} (limit : Nat) (filled : Fills f g)
      (enclosed : g.parser.openClosers ≠ [])
      (ends : g.current = .eof ∨ g.current.isClosingKeyword = true ∨
        g.current ∈ g.parser.openClosers) :
      Fills f { g with parser := Level.complainTooDeep limit g.parser }

end

/-! ## Courses are traces -/

mutual

theorem Forms.reads : ∀ {s : Scope} {p q : Parser} {t : Tree}, Forms s p t q → Reads p t q
  | _, _, _, _, .leaf here _ => .leaf here
  | _, _, _, _, .string _ gained _ => .node .string rfl gained.grows
  | _, _, _, _, .node kind simple _ gained =>
      .node kind (NodeKind.isConstruct_of_isSimple simple) gained.grows
  | _, _, _, _, .around kind simple _ first _ _ gained =>
      .around kind (NodeKind.isConstruct_of_isSimple simple) first.reads gained.grows
  | _, p, _, _, @Forms.block _ _ g h _ kind closer closes _ _ heading inside _ behind _ _ => by
      have started : Grows (p.start kind) g := (Grows.refl _).bump.trans heading.grows
      have same : g.kind = kind := started.kind
      refine .node kind (NodeKind.isConstruct_of_closer closes) ?_
      refine (started.block (same ▸ closes) (NodeKind.awaits_ne_nil closes)
        (NodeKind.awaits_closing kind) inside.grows).trans behind.grows
  | _, _, _, _, .clause kind clause heading inside =>
      .node kind (NodeKind.isConstruct_of_isClause clause) (heading.grows.trans inside.grows)
  | _, _, _, _, .absent _ => .absent
  | _, _, _, _, .mark misplaced _ => .stray misplaced.here (.refl _)
  | _, _, _, _, .stray misplaced _ _ gained => .stray misplaced.here gained.grows
  | _, _, _, _, .aside here _ _ _ => .stray here (.refl _)
  | _, _, _, _, .tooDeep _ _ length => .tooDeep (Level.ahead_of_regionLength length)
  | _, _, _, _, .absentTooDeep _ => .absentTooDeep
  | _, _, _, _, .noticing read => .noticing read.reads
  | _, _, _, _, .nested read => .nested read.reads

theorem Gains.grows : ∀ {kind : NodeKind} {f g : Frame}, Gains kind f g → Grows f g
  | _, f, _, .refl _ => .refl f
  | _, _, _, .bump gained _ _ _ => .bump gained.grows
  | _, _, _, .attach gained read _ _ => .attach gained.grows read.reads
  | _, _, _, .notice gained => .notice gained.grows

theorem Fills.grows : ∀ {f g : Frame}, Fills f g → Grows f g
  | f, _, .refl _ => .refl f
  | _, _, .body filled read _ => .attach filled.grows read.reads
  | _, _, .clause filled read _ _ => .attach filled.grows read.reads
  | _, _, .nested filled inside => .nested filled.grows inside.grows
  | _, _, .tooDeep _ filled enclosed ends => .tooDeep filled.grows enclosed ends

end

/-! ## Constructs with a closer -/

/-- How the frames of a construct with a closer hang together: `g` before its bodies, and `h` behind
them. -/
structure Parser.Encloses (p : Parser) (kind : NodeKind) (g h : Frame) : Prop where
  kind_before : g.kind = kind
  kind_after : h.kind = kind
  before : g.parser.Tidy
  after : h.parser.Tidy
  left : (g.left h).parser.Tidy
  outer : g.parser.openClosers = p.openClosers
  around : (g.left h).parser.openClosers = p.openClosers
  told : h.parser.errors.toList <+: (g.left h).parser.errors.toList

theorem Parser.Tidy.encloses {p : Parser} {kind : NodeKind} {closer : Kind} {g h : Frame}
    (tidy : p.Tidy) (closes : kind.closer = some closer)
    (heading : Gains kind (p.start kind).bump g) (inside : Fills (g.entered kind.awaits) h) :
    p.Encloses kind g h := by
  have started : Grows (p.start kind) g := (Grows.refl _).bump.trans heading.grows
  have before : g.parser.Tidy := started.tidy tidy
  have outer : g.parser.openClosers = p.openClosers := started.later.openClosers
  have after : h.parser.Tidy :=
    inside.grows.tidy ⟨before.pending, before.ahead, before.trailing⟩
  have kind_before : g.kind = kind := started.kind
  have kind_after : h.kind = kind := inside.grows.kind.trans kind_before
  let l : Frame := { h with parser := h.parser.leaveBlock g.parser.openClosers.length }
  have closesLeft : l.kind.closer = some closer := kind_after ▸ closes
  have left : l.close.parser.Tidy :=
    Frame.tidy_close (f := l) ⟨after.pending, after.ahead, after.trailing⟩ closesLeft
  have later : l.parser.Later l.close.parser := Parser.Later.close (.refl _) closesLeft
  have around : l.parser.openClosers = p.openClosers := by
    show h.parser.openClosers.take g.parser.openClosers.length = _
    rw [inside.grows.later.openClosers, ← outer]
    exact List.take_left
  exact ⟨kind_before, kind_after, before, after, left, outer, later.openClosers.trans around,
    later.errors⟩

/-! ## Children -/

namespace Frame

variable {f : Frame} {P : Tree → Prop} {role : Option Role}

theorem forall_children_attach {t : Tree} (tidy : f.parser.Tidy) (comments : ∀ c, c.Comment → P c)
    (old : ∀ c ∈ f.children.toList, P c) (new : P (t.withRole role)) :
    ∀ c ∈ (f.attach role t).children.toList, P c := by
  intro c mem
  rw [children_attach, List.mem_append, List.mem_append, List.mem_singleton] at mem
  rcases mem with (mem | mem) | rfl
  · exact old c mem
  · exact comments c (tidy.pending c mem)
  · exact new

theorem forall_children_bump (tidy : f.parser.Tidy) (comments : ∀ c, c.Comment → P c)
    (old : ∀ c ∈ f.children.toList, P c)
    (new : ∀ item, f.parser.ahead.head? = some item → P (.token role item.token)) :
    ∀ c ∈ (f.bump role).children.toList, P c := by
  intro c mem
  cases head : f.parser.ahead.head? with
  | none =>
      rw [bump_of_none head, children_flush, List.mem_append] at mem
      rcases mem with mem | mem
      · exact old c mem
      · exact comments c (tidy.pending c mem)
  | some item =>
      rw [children_bump head, List.mem_append, List.mem_append, List.mem_append,
        List.mem_singleton] at mem
      rcases mem with ((mem | mem) | mem) | rfl
      · exact old c mem
      · exact comments c (tidy.pending c mem)
      · exact comments c ((tidy.of_head head).comments c mem)
      · exact new item head

theorem forall_children_close {closer : Kind} (closes : f.kind.closer = some closer)
    (tidy : f.parser.Tidy) (comments : ∀ c, c.Comment → P c) (old : ∀ c ∈ f.children.toList, P c)
    (token : ∀ x, P (.token (some .closing) x))
    (missing : ∀ place, P (.missing (some .closing) closer place)) :
    ∀ c ∈ f.close.children.toList, P c := by
  rcases close_cases closes with ⟨_, h⟩ | ⟨_, span, h⟩ <;> rw [h]
  · exact forall_children_bump tidy comments old fun _ _ => token _
  · exact forall_children_attach (f := { f with parser := f.parser.complainAt span _ })
      (tidy.complainAt _ _) comments old (missing _)

end Frame

/-- A tree that is a token is an operand. -/
theorem Forms.isOperand : ∀ {s : Scope} {p q : Parser} {t : Tree}, Forms s p t q → ∀ {x : Token},
    t.token? = some x → x.kind.isOperand = true
  | _, _, _, _, .leaf here operand, x, token => by
      simp only [Parser.takeLeaf, here] at token
      cases token
      exact operand
  | _, _, _, _, .string .., _, token | _, _, _, _, .node .., _, token
  | _, _, _, _, .around .., _, token | _, _, _, _, .block .., _, token
  | _, _, _, _, .clause .., _, token | _, _, _, _, .absent _, _, token
  | _, _, _, _, .mark .., _, token | _, _, _, _, .stray .., _, token
  | _, _, _, _, .aside .., _, token | _, _, _, _, .tooDeep .., _, token
  | _, _, _, _, .absentTooDeep _, _, token => by cases token
  | _, _, _, _, .noticing read, _, token => read.isOperand token
  | _, _, _, _, .nested read, _, token => read.isOperand token

/-! ## Chains of moves -/

namespace Gains

variable {kind : NodeKind} {f g h : Frame} {s : Scope} {role : Option Role}

theorem trans (first : Gains kind f g) : ∀ {h : Frame}, Gains kind g h → Gains kind f h
  | _, .refl _ => first
  | _, .bump gained construct outside plain => .bump (first.trans gained) construct outside plain
  | _, .attach gained read held outside => .attach (first.trans gained) read held outside
  | _, .notice gained => .notice (first.trans gained)

theorem child {read : Parser → Tree × Parser} (gained : Gains kind f g)
    (forms : Forms s g.parser (read g.parser).1 (read g.parser).2) (held : s ≤ kind.holds role)
    (outside : kind.Outside role) : Gains kind f (g.child role read) :=
  gained.attach forms held outside

/-- A token of a known kind. -/
theorem take {k : Kind} (gained : Gains kind f g) (here : g.current = k)
    (construct : kind.isConstruct = true) (outside : kind.Outside role) (plain : k ≠ .stringStart) :
    Gains kind f (g.bump role) :=
  gained.bump construct outside fun quote => absurd (here.symm.trans quote) plain

/-- A complaint and the placeholder that marks it. -/
theorem repair {c : Complaint} {k : Kind} (gained : Gains kind f g)
    (other : c.sort ≠ .missingCloser) (outside : kind.Outside role) :
    Gains kind f ((g.complain c).insertMissing role k) :=
  gained.attach (s := .words) (.absent other) (Scope.words_le _) outside

/-- A complaint and the misplaced token that it is about. -/
theorem skip {c : Complaint} (gained : Gains kind f g) (misplaced : g.parser.Misplaced)
    (other : c.sort ≠ .missingCloser) (outside : kind.Outside none) :
    Gains kind f (g.complain c).skipAsError :=
  gained.attach (s := .words) (.mark misplaced other) (Scope.words_le _) outside

/-- A look ahead. -/
theorem looking {q : Parser} (gained : Gains kind f g)
    (looked : q = g.parser ∨ q = g.parser.noticeEnd) : Gains kind f { g with parser := q } := by
  rcases looked with rfl | rfl
  · exact gained
  · exact gained.notice

theorem second (gained : Gains kind f g) : Gains kind f g.second.2 :=
  gained.looking g.parser.second_looked

theorem demand {wanted : Kind} {c : Complaint} (gained : Gains kind f g)
    (construct : kind.isConstruct = true) (outside : kind.Outside role)
    (unmarked : kind.Outside none) (plain : wanted ≠ .stringStart)
    (other : c.sort ≠ .missingCloser) : Gains kind f (g.demand wanted role c).1 := by
  rcases g.demand_cases wanted role c with ⟨here, h⟩ | ⟨_, q, looked, h⟩
  · rw [h]
    exact gained.take here construct outside plain
  have at_ : q.kind = g.current ∧ q.span = g.parser.span ∧ q.second.1 = g.parser.second.1 := by
    rcases looked with rfl | rfl
    · exact ⟨rfl, rfl, rfl⟩
    · exact ⟨rfl, g.parser.span_noticeEnd, g.parser.second_noticeEnd⟩
  obtain ⟨kind', span, behind⟩ := at_
  have looked := gained.looking looked
  rcases h with ⟨stray, next, h⟩ | h <;> rw [h, ← span]
  · rw [← kind'] at stray
    have skipped := looked.skip (c := c) (Parser.misplaced_of_isStray stray) other unmarked
    have current : ({ g with parser := q }.complain c).skipAsError.current = wanted := by
      have here : q.kind ≠ .eof := Kind.ne_eof_of_isStray stray
      have told : (q.complain c).second.1 = q.second.1 := by
        rw [Parser.complain, Parser.second_complainAt]
      have past := Frame.current_skipAsError
        (f := ({ g with parser := q } : Frame).complain c) here
      exact past.trans (told.trans (behind.trans next))
    exact skipped.take current construct outside plain
  · exact looked.repair other outside

theorem expect {wanted : Kind} (gained : Gains kind f g) (construct : kind.isConstruct = true)
    (outside : kind.Outside role) (unmarked : kind.Outside none) (plain : wanted ≠ .stringStart) :
    Gains kind f (g.expect wanted role) :=
  gained.demand construct outside unmarked plain ParseErrorKind.noConfusion

theorem expectName {part : Role} (gained : Gains kind f g) (construct : kind.isConstruct = true)
    (outside : kind.Outside (some part)) (unmarked : kind.Outside none) :
    Gains kind f (g.expectName part) :=
  gained.demand construct outside unmarked Kind.noConfusion ParseErrorKind.noConfusion

theorem eat {k : Kind} (gained : Gains kind f g) (construct : kind.isConstruct = true)
    (unmarked : kind.Outside none) (plain : k ≠ .stringStart) : Gains kind f (g.eat k).1 := by
  rcases g.eat_cases k with ⟨here, h⟩ | ⟨_, h⟩ <;> rw [h]
  · exact gained.take here construct unmarked plain
  · exact gained

/-! ### Loops -/

theorem loop {step : Frame → Frame × Bool} (gained : Gains kind f g)
    (each : ∀ g, Gains kind g (step g).1) : Gains kind f (g.loop step) :=
  gained.trans (Frame.loop_keeps (I := Gains kind g) (fun h before => before.trans (each h))
    (.refl g))

theorem commaSeparated {part : Frame → Frame} (gained : Gains kind f g)
    (construct : kind.isConstruct = true) (unmarked : kind.Outside none)
    (each : ∀ g, Gains kind g (part g)) : Gains kind f (g.commaSeparated part) :=
  gained.loop fun g => (each g).eat construct unmarked Kind.noConfusion

theorem bumpWhile {passes : Kind → Bool} (gained : Gains kind f g)
    (construct : kind.isConstruct = true) (outside : kind.Outside role)
    (plain : passes .stringStart = false) : Gains kind f (g.bumpWhile role passes) := by
  refine gained.loop fun h => ?_
  split
  · next pass =>
    refine (refl h).bump construct outside fun quote => ?_
    rw [quote, plain] at pass
    cases pass
  · exact .refl h

end Gains

end JassSyntax
