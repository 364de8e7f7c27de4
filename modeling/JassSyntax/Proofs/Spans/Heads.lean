import JassSyntax.Proofs.Recovery.Blame
import JassSyntax.Proofs.Scanning.Locating
import JassSyntax.Proofs.Spans.Outlines

/-!
# Where entries of outlines point

An entry for a struct or a variable is at the token that is its name. An entry for a function or a
block of globals is where a node begins, and comments in front of the first token of a node belong
to the node. So such an entry is at that token exactly if no comment stands there: in
`/* c */ globals endglobals` it is at the comment.
-/

namespace JassSyntax

open Computability Production JassSyntax.Tree

variable {source : String}

/-! ## Comments without width -/

namespace Scanner

variable {s s' e : Scanner} {t : Token} {ts : List Token}

/-- Of comments only the end can be without width, and only at the end of the text. -/
theorem stop_of_isEmpty (at_ : s.At source) (quoted : s.mode.Quoted) (step : s.step = some (t, s'))
    (trivia : t.isTrivia = true) (empty : t.span.isEmpty = true) :
    t.span.stop.offset = source.utf8ByteSize := by
  have yields := (step_stepped at_ step).yields
  have blank : t.text = "" := yields.text_of_isEmpty empty
  have inside : t.kind.isInside = true := by
    by_contra outside
    have going : t.kind ≠ .eof := fun eof => by rw [Token.isTrivia, eof] at trivia; cases trivia
    rw [isEmpty_of_outside step (by simpa using outside) going] at empty
    cases empty
  have ended : s.rest = [] := by
    cases step_moves quoted step with
    | stay _ outside => rw [outside] at inside; cases inside
    | enter _ opens =>
        cases mode : s'.mode <;> rw [mode] at opens
        · cases opens
        all_goals
          rw [opens.1] at inside
          cases inside
    | hold holds =>
        cases mode : s.mode <;> rw [mode] at holds
        · cases holds
        all_goals exact absurd blank holds.2.1
    | leave closes ends =>
        cases mode : s.mode <;> rw [mode] at closes ends
        · cases closes
        · refine ends.resolve_right fun closing => ?_
          have text : t.text = "*/" := closes.2.trans (if_pos closing)
          rw [blank] at text
          exact absurd text (by decide)
        · rw [Token.isTrivia, closes.1] at trivia
          cases trivia
  have here := at_.offset_add
  rw [ended, String.utf8Len_nil, Nat.add_zero] at here
  exact Nat.le_antisymm yields.on.stop.offset_le
    (here ▸ Nat.le_trans yields.start yields.on.le)

theorem Steps.stop_of_isEmpty (steps : s.Steps ts e) (at_ : s.At source) (quoted : s.mode.Quoted) :
    ∀ t ∈ ts, t.isTrivia = true → t.span.isEmpty = true →
      t.span.stop.offset = source.utf8ByteSize := by
  induction steps with
  | refl => exact fun _ mem => by cases mem
  | cons first _ ih =>
      exact List.forall_mem_cons.mpr ⟨Scanner.stop_of_isEmpty at_ quoted first,
        ih (step_stepped at_ first).yields.at_ ((step_moves quoted first).quoted quoted)⟩

end Scanner

/-! ## First tokens -/

namespace Production

variable {m : Tolerance} {w : List Tree}

/-- The word begins with a token of the kind. -/
def StartsWith (kind : Kind) (w : List Tree) : Prop :=
  Heads (fun t => ∃ role token, t = .token role token ∧ token.kind = kind) w

theorem startsWith_token (kind : Kind) (role : Option Role) :
    ∀ w ∈ token kind role, StartsWith kind w :=
  heads_one fun _ ⟨token, same, here⟩ => ⟨role, token, same, here⟩

theorem startsWith_functionName (word : w ∈ production m .functionName) :
    StartsWith .identifier w :=
  heads_mul (startsWith_token _ _) w word

theorem startsWith_globalsBlock (word : w ∈ production m .globalsBlock) :
    StartsWith .kwGlobals w :=
  heads_mul (heads_mul (startsWith_token _ _)) w word

end Production

namespace Tree

variable {t n c : Tree} {x : Token} {kind : Kind} {cs : List Tree}

/-- What is known of the token `x` that a tree begins with, comments aside, and of `first`, which it
really begins with. -/
structure Begins (t : Tree) (x first : Token) : Prop where
  leading : t.leadingToken? = some x
  head : t.leaves.head? = some first
  start : t.span.start = first.span.start
  before : first = x ∨ first.isTrivia = true ∧ first.span.stop.offset ≤ x.span.start.offset

theorem begins_token (role : Option Role) (plain : x.isTrivia = false) :
    (Tree.token role x).Begins x x where
  leading := if_neg (by simp [plain])
  head := rfl
  start := rfl
  before := .inl rfl

/-- A comment begins where its first token does. -/
theorem Comment.begins (comment : c.Comment) (lies : c.Lies source) :
    ∃ first, c.leaves.head? = some first ∧ c.span.start = first.span.start ∧
      first.isTrivia = true := by
  cases comment with
  | token trivia => exact ⟨_, rfl, rfl, trivia⟩
  | @block opening rest trivia parts =>
      have tail := List.getLast?_eq_some_getLast (List.cons_ne_nil (.token (some .opening) opening) rest)
      refine ⟨opening, rfl, ?_, trivia⟩
      rw [lies.here.tight _ _ rfl tail]
      rfl

/-- A node begins with its first part, or with a comment in front of that. -/
theorem Lies.begins {k : NodeKind} (lies : t.Lies source) (remarked : t.Remarked)
    (node : t.nodeKind? = some k) (other : k ≠ .blockComment) (opens : StartsWith kind t.parts) :
    ∃ x first, x.kind = kind ∧ t.Begins x first := by
  obtain ⟨_, head, role, x, rfl, same⟩ := opens
  obtain ⟨ps, word⟩ := List.head?_eq_some_iff.mp head
  obtain ⟨front, back, split, comments, plain, -⟩ := List.filter_eq_cons_iff.mp word
  have comments : ∀ c ∈ front, c.isComment = true := by simpa using comments
  have plain : x.isTrivia = false := by simpa [isComment] using plain
  have leads : leadingTokenOf? t.children = some x := by
    rw [← leadingTokenOf?_significant]
    show leadingTokenOf? t.parts = some x
    rw [word, leadingTokenOf?, (begins_token role plain).leading]
    rfl
  have here := lies.here
  have tight := here.tight
  have ordered := here.ordered
  cases t with
  | token | missing => cases node
  | node r k' s cs =>
      cases node
      obtain rfl : cs = front ++ .token role x :: back := split
      have leading : (node r k s (front ++ .token role x :: back)).leadingToken? = some x := by
        rw [leadingToken?, if_neg other]
        exact leads
      have filled : front ++ .token role x :: back ≠ [] := by simp
      have tail := List.getLast?_eq_some_getLast filled
      cases front with
      | nil =>
          refine ⟨x, x, same, leading, rfl, ?_, .inl rfl⟩
          rw [tight _ _ rfl tail]
          rfl
      | cons c front =>
          have child : c ∈ (node r k s (c :: front ++ .token role x :: back)).children :=
            List.mem_cons_self
          have comment := remarked c (mem_elements_of_child child)
            (comments c List.mem_cons_self)
          obtain ⟨first, head, start, trivia⟩ := comment.begins (lies.of_child child)
          refine ⟨x, first, same, leading, ?_, ?_, .inr ⟨trivia, ?_⟩⟩
          · rw [leaves, List.cons_append, leavesAll_cons, List.head?_append, head]
            rfl
          · rw [tight _ _ rfl tail]
            exact start
          · have inside := (lies.of_child child).leaf_inside (List.mem_of_head? head)
            have apart := (List.pairwise_cons.mp ordered).1 (.token role x) (by simp)
            exact Nat.le_trans inside.2 apart

/-! ## What entries are about -/

theorem Lists.mem {kind : DefinitionKind} {name : String} {n : Tree}
    (lists : t.Lists source kind name n) : n ∈ t.elements := by
  cases lists with
  | function _ first | struct _ first =>
      exact mem_elements_of_child (mem_children_of_first? first)
  | globals => exact self_mem_elements t
  | declared _ child _ first =>
      exact mem_elements_below child (mem_elements_of_child (mem_children_of_first? first))

theorem Lists.nodeKind?_ne_program {kind : DefinitionKind} {name : String} {n : Tree}
    (lists : t.Lists source kind name n) : t.nodeKind? ≠ some .program := by
  cases lists with
  | function node | struct node | globals node | declared node =>
      rw [node]
      simp

end Tree

/-- The kind of the token that an entry is about. -/
def DefinitionKind.head : DefinitionKind → Kind
  | .globals => .kwGlobals
  | .function | .struct | .variable => .identifier

namespace Tree.Surveyed

variable {t n c : Tree} {x first : Token} {k : NodeKind} {kind : DefinitionKind} {name : String}
  {role : Option Role}

/-- The name of a construct is a token, a node for a name of several parts, or a placeholder. -/
theorem isName (h : t.Surveyed source) (unmarked : t.Unmarked) (node : t.nodeKind? = some k)
    (named : k ∈ [.functionDefinition, .structDefinition, .declarator])
    (first : t.first? .name = some n) : IsName n := by
  have plain : k ≠ .blockComment := by
    rintro rfl
    simp at named
  have whole : ¬t.Comment := by
    rintro ⟨⟩ <;> cases node
    exact plain rfl
  obtain ⟨m, shape, only⟩ := single_production named _ (h.derived node plain)
  have role := role_of_first? first
  rw [only n (unmarked.part whole (mem_children_of_first? first) role) role]
  exact shape

theorem begins_identifier (role : Option Role) (same : x.kind = .identifier) :
    (Tree.token role x).Begins x x :=
  begins_token role (by rw [Token.isTrivia, same]; rfl)

theorem begins_name (name : IsName (.token role x)) :
    x.kind = .identifier ∧ (Tree.token role x).Begins x x := by
  rcases name with missing | ⟨_, leaf, same⟩ | node
  · cases missing
  · cases leaf
    exact ⟨same, begins_identifier role same⟩
  · cases node

/-- What an entry is about begins with a token of a known kind, if need be behind a comment. The
names of structs and variables are that token. -/
theorem begins (h : t.Surveyed source) (unmarked : t.Unmarked)
    (lists : t.Lists source kind name n) :
    ∃ x first, x.kind = kind.head ∧ n.Begins x first ∧
      (kind = .struct ∨ kind = .variable → first = x) := by
  cases lists with
  | function node first there =>
      rcases h.isName unmarked node (by simp) first with missing | ⟨x, leaf, same⟩ | several
      · rw [there] at missing
        cases missing
      · obtain ⟨role, rfl⟩ : ∃ role, n = .token role x := by
          cases n with
          | token role y => cases leaf; exact ⟨role, rfl⟩
          | missing | node => cases leaf
        exact ⟨x, x, same, begins_identifier role same, fun _ => rfl⟩
      · have below := h.of_child (mem_children_of_first? first)
        obtain ⟨x, head, same, begins⟩ := below.lies.begins below.remarked several (by decide)
          (startsWith_functionName (below.derived several (by decide)))
        exact ⟨x, head, same, begins, by simp⟩
  | struct node first =>
      obtain ⟨same, begins⟩ := begins_name (h.isName unmarked node (by simp) first)
      exact ⟨_, _, same, begins, fun _ => rfl⟩
  | globals node =>
      obtain ⟨x, head, same, begins⟩ := h.lies.begins h.remarked node (by decide)
        (startsWith_globalsBlock (h.derived node (by decide)))
      exact ⟨x, head, same, begins, by simp⟩
  | declared node child declares first =>
      have found := tokenIn?_of_first? first
      have below := h.of_child child
      obtain ⟨same, begins⟩ := begins_name (below.isName (unmarked.of_element
        (mem_elements_of_child child)) (h.declarator node child declares found).2 (by simp) first)
      exact ⟨_, _, same, begins, fun _ => rfl⟩

end Tree.Surveyed

/-! ## Texts -/

/-- No token of a text that is a name or a keyword is at a comment in front of it. -/
theorem scan_apart {x first : Token} (mem : x ∈ (scan source).1) (head : first ∈ (scan source).1)
    (outside : x.kind.isInside = false) (going : x.kind ≠ .eof) (trivia : first.isTrivia = true)
    (before : first.span.stop.offset ≤ x.span.start.offset) :
    first.span.start.offset < x.span.start.offset := by
  obtain ⟨last, steps, -⟩ := scan_steps source
  have sliced := (scan_ended source).sliced
  by_contra le
  have on := (sliced first head).1.le
  have empty : first.span.isEmpty = true := beq_iff_eq.mpr (by omega)
  have ends := steps.stop_of_isEmpty (Scanner.at_ofString source) ScanMode.quoted_normal first head
    trivia empty
  have stop := (sliced x mem).1.stop.offset_le
  have filled := steps.isEmpty_of_outside x mem outside going
  have differ : x.span.start.offset ≠ x.span.stop.offset := by simpa [Span.isEmpty] using filled
  have le := (sliced x mem).1.le
  omega

/-- An entry of an outline is about the token `x`, and it is at the token `first`. -/
structure Definition.PointsAt (source : String) (tree : Tree) (d : Definition) (x first : Token) :
    Prop where
  /-- Comments aside `x` is the first token of what the entry is about, and really that is `first`. -/
  lists : ∃ t ∈ tree.elements, ∃ n, t.Lists source d.kind d.name n ∧ n.leadingToken? = some x ∧
    n.leaves.head? = some first
  token : x ∈ (scan source).1
  kind : x.kind = d.kind.head
  stands : d.Stands first.span.start
  comment : first = x ∨ first.isTrivia = true
  /-- The entry is at the token that it is about exactly if no comment belongs to the node in front
  of it. -/
  apart : d.Stands x.span.start ↔ first = x
  own : d.kind = .struct ∨ d.kind = .variable → first = x

/-- **Where entries of outlines point.** Every entry of the outline of a text is about a token: the
first one of the name of a function, a struct or a variable, or the keyword of a block of globals.
It is at this token, except that the entry for a function or for a block of globals is at a comment
that the node has in front of it. -/
theorem parse_heads (source : String) : ∀ d ∈ (parse source).tree.outline source,
    ∃ x first, d.PointsAt source (parse source).tree x first := by
  intro d mem
  have ended := scan_ended source
  obtain ⟨t, node, own⟩ := List.mem_flatMap.mp mem
  obtain ⟨n, lists, stands⟩ := exists_lists own
  have inside := (mem_descendants.mp node).1
  have surveyed : t.Surveyed source := by
    rcases mem_elements.mp inside with rfl | ⟨c, child, below⟩
    · exact absurd rfl lists.nodeKind?_ne_program
    · exact (Program.surveyed_parseWithin Program.maxDepth ended c child).of_element below
  have unmarked := (Program.unmarked_parseWithin Program.maxDepth (scan source).1).of_element inside
  obtain ⟨x, first, kind, begins, alone⟩ := surveyed.begins unmarked lists
  have leaves : ∀ y ∈ n.leaves, y ∈ (scan source).1 := by
    intro y leaf
    have all : y ∈ (parse source).tree.leaves :=
      leaves_subset_of_mem_elements inside (leaves_subset_of_mem_elements lists.mem leaf)
    rw [show (parse source).tree.leaves = _ from Program.leaves_parse (scan source).1] at all
    exact (List.takeWhile_sublist _).subset all
  have token := leaves x (leadingToken?_mem begins.leading).1
  have head := leaves first (List.mem_of_head? begins.head)
  rw [begins.start] at stands
  refine ⟨x, first, ⟨t, inside, n, lists, begins.leading, begins.head⟩, token, kind, stands,
    begins.before.imp_right And.left, ⟨fun there => ?_, fun same => same ▸ stands⟩, alone⟩
  refine begins.before.resolve_right fun ⟨trivia, before⟩ => ?_
  -- Two places on one line and in one column would be the same place.
  have lt := scan_apart token head (by rw [kind]; cases d.kind <;> rfl)
    (by rw [kind]; cases d.kind <;> exact Kind.noConfusion) trivia before
  have precedes := (ended.sliced first head).1.start.precedes (ended.sliced x token).1.start lt
  unfold Position.Precedes at precedes
  obtain ⟨line, column⟩ := stands
  obtain ⟨line', column'⟩ := there
  omega

/-- The entry for the block of globals is at the comment, and not at the keyword behind it. -/
theorem parse_heads_comment :
    let source := "/* c */ globals endglobals"
    let d : Definition := ⟨.globals, "globals", 1, 1⟩
    d ∈ (parse source).tree.outline source ∧ ∃ x first,
      d.PointsAt source (parse source).tree x first ∧ x.span.start = ⟨8, 0, 8⟩ ∧
      ¬d.Stands x.span.start := by
  intro source d
  have mem : d ∈ (parse source).tree.outline source := by decide +kernel
  have keyword : ∀ x ∈ (scan source).1, x.kind = .kwGlobals → x.span.start = ⟨8, 0, 8⟩ := by
    decide +kernel
  obtain ⟨x, first, points⟩ := parse_heads source d mem
  have start := keyword x points.token points.kind
  refine ⟨mem, x, first, points, start, fun there => ?_⟩
  rw [start] at there
  cases there.2

end JassSyntax
