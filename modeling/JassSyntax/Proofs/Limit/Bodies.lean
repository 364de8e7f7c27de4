import JassSyntax.Proofs.Discipline.Checks
import JassSyntax.Proofs.Limit.Phrases
import JassSyntax.Proofs.Recovery.Literals

/-!
# Bodies beyond the nesting limit

Where the limit allows for no further body, the items of the body are counted and not read. The
count ends where the body does: in a list of statements nothing stands outside of brackets and
blocks that could end a body, and behind it no bracket and no block is open, so what ends the body
is noticed. The statements become the flat contents of one error node, whatever they are.
-/

namespace JassSyntax

open Level

/-- The frame is one that a body may begin in, up to one of the terminators. -/
structure Frame.AwaitsBody (terminators : List Kind) (f : Frame) : Prop where
  closing : ∀ k ∈ terminators, k.isClosingKeyword = true
  closable : f.parser.Closable
  pending : f.parser.pending = []

/-- From the first frame to the second the items are put aside, in a flat error node that is all of
a body. The reading goes on at `next`. -/
structure Frame.PutsAside (limit : Nat) (items : List Item) (next : Item) (rest : List Item)
    (f g : Frame) : Prop where
  kind : g.kind = f.kind
  opener : g.opener = f.opener
  children : g.children.toList = f.children.toList ++
    [(Tree.ofChildren .block g.parser.lastEnd
      [.ofChildren .error g.parser.lastEnd (items.flatMap Item.trees)]).withRole (some .body)]
  current : g.current = next.kind
  ahead : g.parser.ahead.toList = next :: rest
  errors : g.parser.errors = (complainTooDeep limit f.parser).errors
  cleared : f.parser.Cleared g.parser

variable {limit n : Nat} {terminators : List Kind} {f : Frame} {p : Parser}
  {items rest : List Item} {next : Item}

namespace Level

/-! ## What is put aside -/

/-- The error node that takes in the next items. -/
def aside (limit n : Nat) (p : Parser) : Frame :=
  ((complainTooDeep limit p).start .error).bumps (n + 1)

theorem later_aside (limit n : Nat) (p : Parser) : p.Later (aside limit n p).parser :=
  .bumps (f := Parser.start _ .error) (p.later_complainTooDeep limit)

theorem pending_aside (limit n : Nat) (p : Parser) : (aside limit n p).parser.pending = [] :=
  ((Grows.refl _).bumps (n := n)).pending_nil (Frame.pending_bump _ none)

theorem children_aside (free : p.pending = []) (ahead : p.ahead.toList = items ++ rest)
    (length : items.length = n + 1) :
    (aside limit n p).children.toList = items.flatMap Item.trees := by
  have begun : (complainTooDeep limit p).pending = [] := (complainTooDeep_pending limit p).trans free
  have taken : (complainTooDeep limit p).ahead.toList.take (n + 1) = items := by
    rw [complainTooDeep_ahead, ahead, ← length, List.take_left]
  rw [aside, Frame.children_bumps]
  show [] ++ (complainTooDeep limit p).pending ++
    ((complainTooDeep limit p).ahead.toList.take (n + 1)).flatMap Item.trees = _
  rw [begun, taken]
  rfl

theorem ahead_aside (ahead : p.ahead.toList = items ++ rest) (length : items.length = n + 1) :
    (aside limit n p).parser.ahead.toList = rest := by
  rw [aside, Frame.ahead_bumps]
  show (complainTooDeep limit p).ahead.toList.drop (n + 1) = rest
  rw [complainTooDeep_ahead, ahead, ← length, List.drop_left]

/-- The body that holds an error node and nothing else. -/
def bodyOf (error : Frame) : Frame := (error.parser.start .block).attach none error.finish.1

theorem children_bodyOf {error : Frame} (kind : error.kind = .error)
    (free : error.parser.pending = []) : (bodyOf error).children.toList =
      [.ofChildren .error error.parser.lastEnd error.children.toList] := by
  rw [bodyOf, Frame.children_attach]
  show [] ++ error.parser.pending ++ [error.finish.1.withRole none] = _
  rw [free, Frame.finish, kind]
  rfl

/-! ## Where it ends -/

/-- What ends a body of the frame. -/
def ending (terminators : List Kind) (f : Frame) (k : Kind) : Bool :=
  terminators.contains k || f.parser.closesOpenBlock k

/-- The region of a body is the list of statements in front of what ends it. -/
theorem regionLength_statements (awaits : f.AwaitsBody terminators)
    (word : items.map Item.kind ∈ Phrase.grammar.language) (ends : next.kind ∈ terminators) :
    regionLength (.upTo (ending terminators f)) 0 (items ++ next :: rest) = items.length := by
  have closing : ∀ k, ending terminators f k = true → k.isClosingKeyword = true := by
    intro k stops
    rw [ending, Bool.or_eq_true] at stops
    rcases stops with stops | stops
    · exact awaits.closing k (List.contains_iff_mem.mp stops)
    · exact awaits.closable k (List.contains_iff_mem.mp stops)
  have stops : ending terminators f next.token.kind = true := by
    rw [ending, Bool.or_eq_true]
    exact .inl (List.contains_iff_mem.mpr ends)
  rw [regionLength_upTo closing (Phrase.walk_of_mem_language word), regionLength]
  dsimp only
  rw [if_pos ⟨rfl, stops⟩, Nat.add_zero]

/-! ## Bodies -/

/-- A region that is not empty becomes the body. -/
theorem cutOff_body_of_regionLength
    (region : regionLength (.upTo (ending terminators f)) 0 f.parser.ahead.toList = n + 1) :
    (cutOff limit).body terminators f =
      { f with parser := (bodyOf (aside limit n f.parser)).parser }.attach (some .body)
        (bodyOf (aside limit n f.parser)).finish.1 := by
  unfold cutOff
  dsimp only
  rcases skipTooDeep_cases limit (.upTo (ending terminators f)) f.parser with
    ⟨empty, _⟩ | ⟨m, length, e⟩
  · omega
  · obtain rfl : n = m := by omega
    unfold ending at e
    rw [e]
    rfl

/-- No level reads a body beyond the limit. -/
theorem stack_body_of_full (room : Nat) (full : limit ≤ f.parser.depth) :
    (stack limit room).body terminators f = (cutOff limit).body terminators f := by
  cases room with
  | zero => rfl
  | succ room =>
      rcases above_body_cases limit (stack limit room) terminators f with ⟨_, e⟩ | ⟨space, _⟩
      · exact e
      · omega

/-- A list of statements beyond the limit is put aside exactly. -/
theorem stack_body_putsAside (room : Nat) (full : limit ≤ f.parser.depth)
    (awaits : f.AwaitsBody terminators) (nonempty : items ≠ [])
    (word : items.map Item.kind ∈ Phrase.grammar.language)
    (ahead : f.parser.ahead.toList = items ++ next :: rest) (ends : next.kind ∈ terminators) :
    f.PutsAside limit items next rest ((stack limit room).body terminators f) := by
  obtain ⟨n, length⟩ : ∃ n, items.length = n + 1 :=
    Nat.exists_eq_succ_of_ne_zero (mt List.eq_nil_of_length_eq_zero nonempty)
  have region : regionLength (.upTo (ending terminators f)) 0 f.parser.ahead.toList = n + 1 := by
    rw [ahead, regionLength_statements awaits word ends, length]
  have later := later_aside limit n f.parser
  have behind : (aside limit n f.parser).parser.ahead.toList = next :: rest :=
    ahead_aside ahead length
  rw [stack_body_of_full room full, cutOff_body_of_regionLength region]
  constructor
  case children =>
    have kind : (aside limit n f.parser).kind = .error := Frame.kind_bumps _ _
    have none : (bodyOf (aside limit n f.parser)).parser.pending = [] := rfl
    rw [Frame.children_attach]
    show f.children.toList ++ (bodyOf (aside limit n f.parser)).parser.pending ++ _ = _
    rw [none, List.append_nil, Frame.finish, children_bodyOf kind (pending_aside ..),
      children_aside awaits.pending ahead length]
    rfl
  case current =>
    show (aside limit n f.parser).parser.kind = next.kind
    rw [Parser.kind, Counted.head?, behind]
    rfl
  case ahead => exact behind
  case errors => exact Frame.errors_bumps _ _
  case cleared => exact ⟨⟨later.depth, later.openClosers⟩, rfl⟩
  all_goals rfl

end Level

end JassSyntax
