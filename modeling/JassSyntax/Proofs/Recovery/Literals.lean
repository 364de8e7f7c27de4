import JassSyntax.Parse
import JassSyntax.Proofs.Faults.Accounting
import JassSyntax.Proofs.Faults.Agreement
import JassSyntax.Proofs.Layout.Literals
import JassSyntax.Proofs.Limit.Regions
import JassSyntax.Proofs.Recovery.Constructs
import JassSyntax.Proofs.Tree.Paths

/-!
# String literals in a tree

A construct takes the opening quote of a string only together with the rest of the string, and what
is put aside begins with no quote, or is a region beyond the nesting limit. A region that ends
inside a string is an operand that is cut short: prefix operators, and the quote that ends it.
-/

namespace JassSyntax

open JassSyntax.Tree

/-! ## Where regions end -/

namespace Level

variable {extent : Extent} {balance n : Nat} {front items : List Item} {item next : Item}

theorem regionLength_pos_iff : 0 < regionLength extent balance (item :: items) ↔
    ¬(balance = 0 ∧ extent.endsBefore item.token.kind = true) := by
  rw [regionLength]
  dsimp only
  split
  · next ends => simp [ends]
  · next going =>
    refine iff_of_true ?_ going
    split <;> omega

theorem lt_regionLength : n + 1 < regionLength extent balance (item :: items) ↔
    ¬(balance = 0 ∧ extent.endsBefore item.token.kind = true) ∧
      ¬(balanceAfter balance item.token.kind = 0 ∧ extent.endsAfter item.token.kind = true) ∧
        n < regionLength extent (balanceAfter balance item.token.kind) items := by
  rw [regionLength]
  dsimp only
  split
  · next ends => simp [ends]
  · next going =>
    split
    · next ends => simp [ends]
    · next further =>
      simp only [going, further, not_false_iff, true_and]
      omega

/-- The region of an operand goes on behind a token that closes nothing, unless there is nothing but
prefix operators in front of the token. -/
theorem operand_goes_on (closes : item.token.kind.closesNesting = false)
    (reached : front.length < regionLength .operand balance (front ++ item :: next :: items)) :
    (balance = 0 ∧ ∀ x ∈ front, x.token.kind.isUnary = true) ∨
      front.length + 1 < regionLength .operand balance (front ++ item :: next :: items) := by
  induction front generalizing balance with
  | nil =>
      rcases Nat.eq_zero_or_pos balance with outside | inside
      · exact .inl ⟨outside, by simp⟩
      · have after : 0 < balanceAfter balance item.token.kind := by
          simp only [balanceAfter, closes]
          split
          · omega
          · simpa using inside
        exact .inr (lt_regionLength.mpr ⟨by omega, by omega, regionLength_pos_iff.mpr (by omega)⟩)
  | cons x front ih =>
      obtain ⟨going, further, reached⟩ := lt_regionLength.mp reached
      rcases ih reached with ⟨outside, operators⟩ | more
      · have unary : x.token.kind.isUnary = true := by
          simpa [Extent.endsAfter, outside] using further
        obtain ⟨_, opens, shuts⟩ := Kind.canStartExpression_of_isUnary unary
        rw [balanceAfter, opens, shuts] at outside
        exact .inl ⟨outside, List.forall_mem_cons.mpr ⟨unary, operators⟩⟩
      · exact .inr (lt_regionLength.mpr ⟨going, further, more⟩)

/-- The region of a body goes on before a token that does not end it. -/
theorem body_goes_on {stop : Kind → Bool} (goes : stop next.token.kind = false)
    (reached : front.length < regionLength (.upTo stop) balance (front ++ item :: next :: items)) :
    front.length + 1 < regionLength (.upTo stop) balance (front ++ item :: next :: items) := by
  induction front generalizing balance with
  | nil =>
      have next : 0 < regionLength (.upTo stop) (balanceAfter balance item.token.kind)
          (next :: items) := regionLength_pos_iff.mpr (by simp [Extent.endsBefore, goes])
      exact lt_regionLength.mpr
        ⟨regionLength_pos_iff.mp reached, (fun ends => by cases ends.2), next⟩
  | cons x front ih =>
      obtain ⟨going, further, reached⟩ := lt_regionLength.mp reached
      exact lt_regionLength.mpr ⟨going, further, ih reached⟩

/-- A region holds the rest of every string that it holds the opening quote of, or it ends behind
the quote and has only prefix operators in front of it. -/
theorem region_keeps {p : Parser} (region : p.Region extent) (closable : p.Closable)
    (strings : StringsClose Item.token (Item.mk []) p.ahead.toList)
    (length : regionLength extent 0 p.ahead.toList = n) {back : List Item}
    (taken : p.ahead.toList.take n = front ++ item :: back)
    (opens : item.token.kind = .stringStart) :
    (∃ ts, ClosesString ts ∧ ts.map (Item.mk []) <+: back) ∨
      back = [] ∧ ∀ x ∈ front, x.token.kind.isUnary = true := by
  have goes : ∀ {front items : List Item} {item next : Item},
      p.ahead.toList = front ++ item :: next :: items → item.token.kind.closesNesting = false →
      next.token.kind.isClosingKeyword = false → front.length < n →
      (∀ x ∈ front, x.token.kind.isUnary = true) ∨ front.length + 1 < n := by
    intro front items item next ahead closes plain reached
    rw [← length, ahead] at reached ⊢
    cases region with
    | operand => exact (operand_goes_on closes reached).imp_left And.right
    | body closing =>
        refine .inr (body_goes_on ?_ reached)
        refine Bool.eq_false_iff.mpr fun stop => ?_
        rw [Bool.or_eq_true, List.contains_iff_mem, Parser.closesOpenBlock,
          List.contains_iff_mem] at stop
        rw [stop.elim (closing _) (closable _)] at plain
        cases plain
  have split : p.ahead.toList = front ++ item :: (back ++ p.ahead.toList.drop n) := by
    have whole := List.take_append_drop n p.ahead.toList
    rw [taken] at whole
    simpa using whole.symm
  obtain ⟨ts, closes, behind⟩ := strings item _ ⟨front, split.symm⟩ opens
  by_cases enough : ts.length ≤ back.length
  · refine .inl ⟨ts, closes, List.prefix_of_prefix_length_le behind (List.prefix_append _ _) ?_⟩
    simpa using enough
  have plain : ∀ t ∈ ts, t.kind.isClosingKeyword = false := by
    intro t mem
    rcases closes.kind t mem with kind | kind <;> rw [kind] <;> rfl
  -- The region ends inside the string, so what is left of the string is left.
  have left : ts.length ≤ back.length + (p.ahead.toList.length - n) := by
    simpa using behind.length_le
  have count : n = front.length + 1 + back.length := by
    have all := congrArg List.length taken
    simp only [List.length_take, List.length_append, List.length_cons] at all
    omega
  obtain ⟨more, behind⟩ := behind
  cases back with
  | nil =>
      cases ts with
      | nil => simp at enough
      | cons t ts =>
          rw [← behind] at split
          rcases goes split (by rw [opens]; rfl) (plain t List.mem_cons_self) (by omega) with
            operators | further
          · exact .inr ⟨rfl, operators⟩
          · simp only [List.length_nil] at count
            omega
  | cons b back =>
      rcases closes.cases with ⟨t, rfl, _⟩ | ⟨t, u, rfl, kind, _⟩
      · simp at enough
      · simp only [List.length_cons, List.length_nil] at enough left count
        obtain rfl : back = [] := List.eq_nil_of_length_eq_zero (by omega)
        obtain ⟨rfl, rest⟩ := List.cons.inj behind
        rw [List.singleton_append, ← show ⟨[], u⟩ :: more = p.ahead.toList.drop n from rest]
          at split
        have inside : p.ahead.toList = (front ++ [item]) ++ ⟨[], t⟩ :: ⟨[], u⟩ :: more := by
          simpa using split
        rcases goes inside (by rw [kind]; rfl) (plain u (by simp)) (by simp; omega) with
          operators | further
        · have unary := operators item (by simp)
          rw [opens] at unary
          cases unary
        · simp at further
          omega

end Level

/-! ## Children -/

theorem Item.flatMap_trees_bare (ts : List Token) :
    (ts.map (Item.mk [])).flatMap Item.trees = ts.map (Tree.token none) := by
  induction ts with
  | nil => rfl
  | cons t ts ih => simp [Item.trees, ih]

/-- A token is taken behind the comments that wait and those in front of it. At the end of the
tokens only the comments that wait are taken. -/
theorem Frame.children_bump_none (f : Frame) : (f.bump none).children.toList =
    f.children.toList ++ f.parser.pending ++
      (f.parser.ahead.toList.take 1).flatMap Item.trees := by
  cases ahead : f.parser.ahead.toList with
  | nil =>
      have none : f.parser.ahead.head? = none := by rw [Counted.head?, ahead]; rfl
      simp [bump_of_none none, children_flush]
  | cons item items =>
      have head : f.parser.ahead.head? = some item := by rw [Counted.head?, ahead]; rfl
      simp [children_bump head, Item.trees]

theorem Frame.children_bumps (f : Frame) (n : Nat) : (f.bumps (n + 1)).children.toList =
    f.children.toList ++ f.parser.pending ++
      (f.parser.ahead.toList.take (n + 1)).flatMap Item.trees := by
  induction n generalizing f with
  | zero => exact f.children_bump_none
  | succ n ih =>
      rw [bumps, ih, pending_bump, ahead_bump, children_bump_none]
      cases f.parser.ahead.toList <;> simp

section Splits

variable {left right : List Tree} {c : Tree} {x : Token}

/-- A token that is no comment stands behind the comments in front. -/
theorem split_behind_comments {comments rest : List Tree} (only : ∀ t ∈ comments, t.Comment)
    (split : comments ++ rest = left ++ c :: right) (token : c.token? = some x)
    (plain : x.isTrivia = false) : ∃ more, left = comments ++ more ∧ rest = more ++ c :: right := by
  have outside : c ∉ comments := by
    intro mem
    have comment := (only c mem).isComment
    cases c with
    | missing | node => cases token
    | token role y =>
        cases token
        rw [Tree.isComment, plain] at comment
        cases comment
  rcases List.append_eq_append_iff.mp split with ⟨more, rfl, behind⟩ | ⟨more, rfl, inside⟩
  · exact ⟨more, rfl, behind⟩
  · cases more with
    | nil => exact ⟨[], by simp, inside.symm⟩
    | cons d more =>
        cases inside
        exact absurd (by simp) outside

theorem split_items {items : List Item} (tidy : ∀ item ∈ items, item.Tidy)
    (split : items.flatMap Item.trees = left ++ c :: right) (token : c.token? = some x)
    (plain : x.isTrivia = false) : ∃ front item back, items = front ++ item :: back ∧
      item.token = x ∧ left = front.flatMap Item.trees ++ item.comments ∧
        right = back.flatMap Item.trees := by
  induction items generalizing left with
  | nil => simp at split
  | cons item items ih =>
      have here := tidy item List.mem_cons_self
      rw [List.flatMap_cons, Item.trees, List.append_assoc] at split
      obtain ⟨more, rfl, behind⟩ := split_behind_comments here.comments split token plain
      cases more with
      | nil =>
          cases behind
          exact ⟨[], item, items, rfl, Option.some.inj token, by simp, rfl⟩
      | cons d more =>
          obtain ⟨rfl, later⟩ : _ ∧ items.flatMap Item.trees = more ++ c :: right :=
            List.cons.inj behind
          obtain ⟨front, next, back, rfl, same, rfl, rfl⟩ :=
            ih (fun other mem => tidy other (List.mem_cons_of_mem item mem)) later
          exact ⟨item :: front, next, back, rfl, same, by simp [Item.trees], rfl⟩

end Splits

/-! ## Trees that keep strings -/

namespace Tree

/-- The node is an operand that is cut short behind the opening quote of a string: nothing but
prefix operators is in front of the quote. -/
structure CutShort (u : Tree) (left : List Tree) : Prop where
  error : u.nodeKind? = some .error
  operators : ∀ c ∈ significant left, ∃ x, c.token? = some x ∧ x.kind.isUnary = true

/-- Behind every opening quote among the children stands the rest of the string, or the node is cut
short there, and `deep` holds. -/
def Mends (deep : Prop) (u : Tree) : Prop :=
  ∀ left c right x, u.children = left ++ c :: right → c.token? = some x →
    x.kind = .stringStart → (∃ ts, ClosesString ts ∧ ts.map some <+: right.map token?) ∨
      deep ∧ right = [] ∧ u.CutShort left

/-- That is so everywhere in the tree. -/
def Keeps (deep : Prop) (t : Tree) : Prop := ∀ u ∈ t.elements, u.Mends deep

/-- The tree is no opening quote. -/
def Quoteless (t : Tree) : Prop := ∀ x, t.token? = some x → x.kind ≠ .stringStart

variable {deep : Prop} {t : Tree}

theorem mends_of_quoteless (quoteless : ∀ c ∈ t.children, c.Quoteless) : t.Mends deep := by
  intro left c right x split token opens
  exact absurd opens (quoteless c (by simp [split]) x token)

theorem keeps_of_children (here : t.Mends deep) (below : ∀ c ∈ t.children, c.Keeps deep) :
    t.Keeps deep := by
  intro u mem
  rcases mem_elements.mp mem with rfl | ⟨c, child, mem⟩
  · exact here
  · exact below c child u mem

theorem keeps_of_childless (childless : t.children = []) : t.Keeps deep :=
  keeps_of_children (mends_of_quoteless (by simp [childless])) (by simp [childless])

theorem children_of_token? {x : Token} (token : t.token? = some x) : t.children = [] := by
  cases t with
  | token => rfl
  | missing | node => cases token

theorem Keeps.withRole (h : t.Keeps deep) (role : Option Role) : (t.withRole role).Keeps deep := by
  refine keeps_of_children ?_ fun c child u mem => ?_
  · intro left c right x split token opens
    rw [children_withRole] at split
    refine (h t (self_mem_elements t) left c right x split token opens).imp_right ?_
    rintro ⟨deep, none, error, operators⟩
    exact ⟨deep, none, by rwa [nodeKind?_withRole], operators⟩
  · rw [children_withRole] at child
    exact h u (mem_elements_below child mem)

theorem Comment.quoteless (comment : t.Comment) : t.Quoteless := by
  cases comment with
  | token trivia =>
      rintro x same opens
      cases same
      rw [Token.isTrivia, opens] at trivia
      cases trivia
  | block =>
      intro x same
      cases same

theorem Comment.keeps (comment : t.Comment) : t.Keeps deep := by
  intro u mem
  refine mends_of_quoteless fun c child => Comment.quoteless ?_
  have below : c ∈ u.elements := mem_elements_of_child child
  exact (comment.elements u mem).elements c below

end Tree

/-! ## Strings -/

namespace Frame

/-- A token that is taken without comments in front of it. -/
theorem bump_bare {f : Frame} {t : Token} {rest : List Item} (role : Option Role)
    (ahead : f.parser.ahead.toList = ⟨[], t⟩ :: rest) (free : f.parser.pending = []) :
    (f.bump role).children.toList = f.children.toList ++ [.token role t] ∧
      (f.bump role).parser.ahead.toList = rest ∧ (f.bump role).parser.pending = [] := by
  have head : f.parser.ahead.head? = some ⟨[], t⟩ := by rw [Counted.head?, ahead]; rfl
  exact ⟨by simp [children_bump head, free], by rw [ahead_bump, ahead]; rfl, f.pending_bump role⟩

theorem current_of_ahead {f : Frame} {item : Item} {rest : List Item}
    (ahead : f.parser.ahead.toList = item :: rest) : f.current = item.token.kind := by
  rw [current, Parser.kind, Counted.head?, ahead]
  rfl

theorem expect_of_current {f : Frame} {wanted : Kind} (here : f.current = wanted)
    (role : Option Role) : f.expect wanted role = f.bump role := by
  rw [expect, demand, if_pos here]

end Frame

/-- A string has its opening quote and the rest of the string for children, behind comments. -/
theorem Expression.string_children {p : Parser} (tidy : p.Tidy)
    (strings : StringsClose Item.token (Item.mk []) p.ahead.toList) (here : p.kind = .stringStart) :
    ∃ comments x ts rest, (∀ t ∈ comments, t.Comment) ∧ ClosesString ts ∧
      rest.map token? = ts.map some ∧
        (string p).1.children = comments ++ .token (some .opening) x :: rest := by
  obtain ⟨item, head, opens⟩ := Parser.head_of_kind here (by decide)
  obtain ⟨items, ahead⟩ := List.head?_eq_some_iff.mp head
  obtain ⟨ts, closes, more, behind⟩ := strings item items (ahead ▸ List.suffix_refl _) opens
  let f := (p.start .string).bump (some .opening)
  have first : f.children.toList =
      (p.pending ++ item.comments) ++ [.token (some .opening) item.token] := by
    refine (Frame.children_bump (f := p.start .string) head (some .opening)).trans ?_
    simp [Parser.start]
  have free : f.parser.pending = [] := Frame.pending_bump _ _
  have next : f.parser.ahead.toList = ts.map (Item.mk []) ++ more := by
    rw [Frame.ahead_bump, behind]
    show p.ahead.toList.tail = _
    rw [ahead, List.tail_cons]
  have comments : ∀ t ∈ p.pending ++ item.comments, t.Comment := fun t mem =>
    (List.mem_append.mp mem).elim (tidy.pending t) ((tidy.of_head head).comments t)
  show ∃ comments x ts rest, _ ∧ _ ∧ _ ∧ ((if f.current = .stringContent
    then f.bump (some .content) else f).expect .stringEnd (some .closing)).children.toList = _
  rcases closes.cases with ⟨t, rfl, kind⟩ | ⟨t, u, rfl, kind, kind'⟩
  · have current : f.current = .stringEnd := (Frame.current_of_ahead next).trans kind
    rw [if_neg (by rw [current]; exact Kind.noConfusion), Frame.expect_of_current current,
      (Frame.bump_bare _ next free).1, first]
    exact ⟨_, _, _, _, comments, closes, by simp [token?], List.append_assoc ..⟩
  · have current : f.current = .stringContent := (Frame.current_of_ahead next).trans kind
    obtain ⟨children, next, free⟩ := Frame.bump_bare (some .content) next free
    have closing : (f.bump (some .content)).current = .stringEnd :=
      (Frame.current_of_ahead next).trans kind'
    rw [if_pos current, Frame.expect_of_current closing, (Frame.bump_bare _ next free).1,
      children, first]
    exact ⟨_, item.token, _, [.token (some .content) t, .token (some .closing) u], comments,
      closes, by simp [token?], by simp⟩

theorem Expression.string_keeps {deep : Prop} {p : Parser} (tidy : p.Tidy)
    (strings : StringsClose Item.token (Item.mk []) p.ahead.toList) (here : p.kind = .stringStart) :
    (string p).1.Keeps deep := by
  obtain ⟨comments, x, ts, rest, only, closes, parts, children⟩ :=
    string_children tidy strings here
  have part : ∀ c ∈ rest, ∃ y, c.token? = some y ∧ y ∈ ts := by
    intro c mem
    have image := List.mem_map_of_mem (f := token?) mem
    rw [parts] at image
    obtain ⟨y, mem, same⟩ := List.mem_map.mp image
    exact ⟨y, same.symm, mem⟩
  refine keeps_of_children (fun left c right y split token opens => .inl ?_) fun c child => ?_
  · rw [children] at split
    obtain ⟨more, rfl, behind⟩ := split_behind_comments only split token
      (by rw [Token.isTrivia, opens]; rfl)
    cases more with
    | nil =>
        cases behind
        exact ⟨ts, closes, by rw [parts]⟩
    | cons d more =>
        obtain ⟨rfl, inside⟩ := List.cons.inj behind
        obtain ⟨_, same, mem⟩ := part c (by simp [inside])
        cases same.symm.trans token
        exact absurd opens (closes.ne_stringStart y mem)
  · rw [children, List.mem_append, List.mem_cons] at child
    rcases child with mem | rfl | mem
    · exact (only c mem).keeps
    · exact keeps_of_childless rfl
    · obtain ⟨y, token, _⟩ := part c mem
      exact keeps_of_childless (children_of_token? token)

/-! ## Reading keeps strings -/

namespace Parser

variable {p q : Parser} {deep : Prop}

/-- What every reading can count on. -/
structure Sound (p : Parser) : Prop where
  tidy : p.Tidy
  closable : p.Closable
  strings : StringsClose Item.token (Item.mk []) p.ahead.toList

theorem Sound.later (sound : p.Sound) (later : p.Later q) (tidy : q.Tidy) : q.Sound :=
  ⟨tidy, sound.closable.later later, sound.strings.suffix later.ahead⟩

/-- Where nesting has been cut off, `deep` holds. -/
def Tells (deep : Prop) (p : Parser) : Prop := ¬p.Shallow → deep

theorem Tells.before (tells : q.Tells deep) (errors : p.errors.toList <+: q.errors.toList) :
    p.Tells deep :=
  fun cut => tells fun shallow => cut (shallow.before errors)

end Parser

theorem Reads.sound {p q : Parser} {t : Tree} (read : Reads p t q) (sound : p.Sound) : q.Sound :=
  sound.later read.later (read.tidy sound.tidy)

theorem Grows.sound {f g : Frame} (grown : Grows f g) (sound : f.parser.Sound) : g.parser.Sound :=
  sound.later grown.later (grown.tidy sound.tidy)

theorem Kind.ne_stringStart_of_isOperand {k : Kind} (operand : k.isOperand = true) :
    k ≠ .stringStart := by
  rintro rfl
  cases operand

namespace Frame

variable {f : Frame} {deep : Prop} {role : Option Role}

/-- Below the children so far strings are kept, and none of the children is an opening quote. -/
def Keeps (deep : Prop) (f : Frame) : Prop :=
  ∀ c ∈ f.children.toList, c.Quoteless ∧ c.Keeps deep

theorem keeps_start (p : Parser) (kind : NodeKind) : (p.start kind).Keeps deep :=
  fun _ mem => by cases mem

theorem Keeps.finish (h : f.Keeps deep) : f.finish.1.Keeps deep :=
  keeps_of_children (mends_of_quoteless fun c child => (h c child).1) fun c child => (h c child).2

theorem Keeps.attach {t : Tree} (h : f.Keeps deep) (tidy : f.parser.Tidy) (quoteless : t.Quoteless)
    (keeps : t.Keeps deep) : (f.attach role t).Keeps deep := by
  refine forall_children_attach (P := fun c => c.Quoteless ∧ c.Keeps deep) tidy
    (fun c comment => ⟨comment.quoteless, comment.keeps⟩) h ⟨fun x token => ?_, keeps.withRole role⟩
  rw [token?_withRole] at token
  exact quoteless x token

theorem Keeps.bump (h : f.Keeps deep) (tidy : f.parser.Tidy) (plain : f.current ≠ .stringStart) :
    (f.bump role).Keeps deep := by
  refine forall_children_bump (P := fun c => c.Quoteless ∧ c.Keeps deep) tidy
    (fun c comment => ⟨comment.quoteless, comment.keeps⟩) h fun item head =>
      ⟨fun x token opens => plain ?_, keeps_of_childless rfl⟩
  cases token
  rw [current, Parser.kind, head]
  exact opens

theorem Keeps.close {closer : Kind} (h : f.Keeps deep) (tidy : f.parser.Tidy)
    (closes : f.kind.closer = some closer) : f.close.Keeps deep := by
  rcases close_cases closes with ⟨here, e⟩ | ⟨_, span, e⟩ <;> rw [e]
  · refine h.bump tidy fun opens => ?_
    have closing := NodeKind.isClosingKeyword_of_closer closes
    rw [← here, opens] at closing
    cases closing
  · refine Keeps.attach (f := { f with parser := f.parser.complainAt span _ }) h
      (tidy.complainAt _ _) (fun x token => ?_) (keeps_of_childless rfl)
    cases token

/-- One token that is put aside. -/
theorem keeps_aside {p : Parser} (tidy : p.Tidy) (c : Complaint) (plain : p.kind ≠ .stringStart) :
    ((p.complain c).start .error).bump.Keeps deep :=
  (keeps_start (p.complain c) .error).bump (tidy.complainAt _ _) plain

end Frame

/-- A region that is put aside keeps its strings, or it is cut short. -/
theorem Level.tooDeep_keeps {p : Parser} {extent : Extent} {limit n : Nat} {deep : Prop}
    (sound : p.Sound) (region : p.Region extent)
    (length : regionLength extent 0 p.ahead.toList = n + 1) (here : deep) :
    (((complainTooDeep limit p).start .error).bumps (n + 1)).finish.1.Keeps deep := by
  let q := complainTooDeep limit p
  let xs := p.ahead.toList.take (n + 1)
  have tidy : q.Tidy := sound.tidy.complainTooDeep limit
  have items : ∀ item ∈ xs, item.Tidy := fun item mem =>
    sound.tidy.ahead item (List.mem_of_mem_take mem)
  have children : ((q.start .error).bumps (n + 1)).finish.1.children =
      q.pending ++ xs.flatMap Item.trees := by
    refine (Frame.children_bumps (q.start .error) n).trans ?_
    show [] ++ q.pending ++ (q.ahead.toList.take (n + 1)).flatMap _ = _
    rw [complainTooDeep_ahead, List.nil_append]
  refine keeps_of_children (fun left c right x split token opens => ?_) fun c child => ?_
  · have plain : x.isTrivia = false := by rw [Token.isTrivia, opens]; rfl
    rw [children] at split
    obtain ⟨more, rfl, behind⟩ := split_behind_comments tidy.pending split token plain
    obtain ⟨front, item, back, taken, rfl, rfl, rfl⟩ := split_items items behind token plain
    rcases region_keeps region sound.closable sound.strings length taken opens with
      ⟨ts, closes, rest, rfl⟩ | ⟨rfl, operators⟩
    · refine .inl ⟨ts, closes, (rest.flatMap Item.trees).map token?, ?_⟩
      rw [List.flatMap_append, Item.flatMap_trees_bare, List.map_append, List.map_map]
      rfl
    · refine .inr ⟨here, rfl, congrArg some (Frame.kind_bumps _ _), fun c mem => ?_⟩
      obtain ⟨mem, significant⟩ := List.mem_filter.mp mem
      have plain : ¬c.Comment := fun comment => by simp [comment.isComment] at significant
      rcases List.mem_append.mp mem with mem | mem
      · exact absurd (tidy.pending c mem) plain
      rcases List.mem_append.mp mem with mem | mem
      · obtain ⟨y, inside, mem⟩ := List.mem_flatMap.mp mem
        have known := items y (by rw [taken]; simp [inside])
        rcases Item.mem_trees.mp mem with mem | rfl
        · exact absurd (known.comments c mem) plain
        · exact ⟨y.token, rfl, operators y inside⟩
      · exact absurd ((items item (by rw [taken]; simp)).comments c mem) plain
  · rw [children, List.mem_append] at child
    rcases child with mem | mem
    · exact (tidy.pending c mem).keeps
    · obtain ⟨y, inside, mem⟩ := List.mem_flatMap.mp mem
      rcases Item.mem_trees.mp mem with mem | rfl
      · exact ((items y inside).comments c mem).keeps
      · exact keeps_of_childless rfl

theorem Forms.quoteless {s : Scope} {p q : Parser} {t : Tree} (read : Forms s p t q) :
    t.Quoteless :=
  fun _ token => Kind.ne_stringStart_of_isOperand (read.isOperand token)

mutual

/-- A tree keeps its strings, wherever nesting is not cut off. -/
theorem Forms.keeps : ∀ {s : Scope} {p q : Parser} {t : Tree}, Forms s p t q → p.Sound →
    ∀ {deep : Prop}, q.Tells deep → t.Keeps deep
  | _, _, _, _, .leaf here _, _, _, _ => by
      simp only [Parser.takeLeaf, here]
      exact keeps_of_childless rfl
  | _, _, _, _, .string here _ whole, sound, _, _ => by
      rw [← whole]
      exact Expression.string_keeps sound.tidy sound.strings here
  | _, p, _, _, .node kind simple _ gained, sound, _, tells =>
      (gained.keeps (by rintro rfl; cases simple) sound tells (Frame.keeps_start p kind)).finish
  | _, _, _, _, .around (q := q) kind simple _ first _ _ gained, sound, _, tells => by
      have after := first.reads.sound sound
      have keeps := first.keeps sound (tells.before gained.grows.later.errors)
      exact (gained.keeps (by rintro rfl; cases simple)
        ⟨Frame.tidy_attach after.tidy _ _, after.closable, after.strings⟩ tells
        ((Frame.keeps_start q kind).attach after.tidy first.quoteless keeps)).finish
  | _, p, _, _, .block (g := g) (h := h) kind closes opens _ heading inside _ behind _ _,
      sound, deep, tells => by
      have frames := sound.tidy.encloses closes heading inside
      have other : kind ≠ .string := by
        rintro rfl
        cases closes
      have begun : (p.start kind).bump.Keeps deep := (Frame.keeps_start p kind).bump sound.tidy
        (NodeKind.ne_stringStart_of_opening? opens)
      have started : Grows (p.start kind) g := (Grows.refl _).bump.trans heading.grows
      have before := started.sound sound
      have told := tells.before behind.grows.later.errors
      have filled := told.before frames.told
      have headed := heading.keeps other ((Grows.refl (p.start kind)).bump.sound sound)
        (filled.before inside.grows.later.errors) begun
      have closable : (g.entered kind.awaits).parser.Closable := fun w mem =>
        (List.mem_append.mp mem).elim (before.closable w) (NodeKind.awaits_closing kind w)
      have bodies := inside.keeps ⟨⟨before.tidy.pending, before.tidy.ahead, before.tidy.trailing⟩,
        closable, before.strings⟩ filled headed
      have closed : (g.left h).Keeps deep := Frame.Keeps.close
        (f := { h with parser := h.parser.leaveBlock g.parser.openClosers.length }) bodies
        ⟨frames.after.pending, frames.after.ahead, frames.after.trailing⟩
        (frames.kind_after ▸ closes)
      have around : Grows (p.start kind) (g.left h) := started.block
        (frames.kind_before ▸ closes) (NodeKind.awaits_ne_nil closes)
        (NodeKind.awaits_closing kind) inside.grows
      exact (behind.keeps other (around.sound sound) tells closed).finish
  | _, p, _, _, .clause kind clause heading inside, sound, _, tells => by
      have other : kind ≠ .string := by
        rintro rfl
        cases clause
      have headed := heading.keeps other sound (tells.before inside.grows.later.errors)
        (Frame.keeps_start p kind)
      exact (inside.keeps (heading.grows.sound sound) tells headed).finish
  | _, _, _, _, .absent _, _, _, _ => keeps_of_childless rfl
  | _, _, _, _, .mark misplaced _, sound, _, _ =>
      (Frame.keeps_aside sound.tidy _ misplaced.plain).finish
  | _, p, _, _, .stray (c := c) misplaced _ _ gained, sound, _, tells => by
      have begun : ((p.complain c).start .error).bump.parser.Sound :=
        (Grows.refl ((p.complain c).start .error)).bump.sound
          (sound.later (p.later_complainAt _ _) (sound.tidy.complainAt _ _))
      exact (gained.keeps NodeKind.noConfusion begun tells
        (Frame.keeps_aside sound.tidy c misplaced.plain)).finish
  | _, p, _, _, .aside _ unfit _ _, sound, _, _ => by
      refine (Frame.keeps_aside sound.tidy _ fun opens => ?_).finish
      rw [opens] at unfit
      cases unfit
  | _, p, _, _, .tooDeep limit region length, sound, _, tells => by
      refine Level.tooDeep_keeps sound region length (tells fun shallow => ?_)
      refine Parser.not_shallow_complainTooDeep limit p (shallow.before ?_)
      exact (Parser.Later.bumps (f := (Level.complainTooDeep limit p).start .error)
        (.refl _)).errors
  | _, _, _, _, .absentTooDeep _, _, _, _ => keeps_of_childless rfl
  | _, _, _, _, .noticing read, sound, _, tells =>
      read.keeps ⟨⟨sound.tidy.pending, sound.tidy.ahead, sound.tidy.trailing⟩, sound.closable,
        sound.strings⟩ tells
  | _, _, _, _, .nested read, sound, _, tells =>
      read.keeps ⟨⟨sound.tidy.pending, sound.tidy.ahead, sound.tidy.trailing⟩, sound.closable,
        sound.strings⟩ tells

theorem Gains.keeps : ∀ {kind : NodeKind} {f g : Frame}, Gains kind f g → kind ≠ .string →
    f.parser.Sound → ∀ {deep : Prop}, g.parser.Tells deep → f.Keeps deep → g.Keeps deep
  | _, _, _, .refl _, _, _, _, _, h => h
  | _, _, _, .bump gained _ _ plain, other, sound, _, tells, h => by
      rw [Parser.Tells, Parser.Shallow, Frame.errors_bump] at tells
      exact (gained.keeps other sound tells h).bump (gained.grows.tidy sound.tidy)
        fun opens => other (plain opens)
  | _, _, _, .attach (g := g) (q := q) gained read _ _, other, sound, _, tells, h => by
      have before := gained.grows.sound sound
      have keeps := gained.keeps other sound (Parser.Tells.before (q := q) tells
        read.reads.later.errors) h
      exact keeps.attach (f := { g with parser := q }) (read.reads.tidy before.tidy) read.quoteless
        (read.keeps before tells)
  | _, _, _, .notice gained, other, sound, _, tells, h => gained.keeps other sound tells h

theorem Fills.keeps : ∀ {f g : Frame}, Fills f g → f.parser.Sound → ∀ {deep : Prop},
    g.parser.Tells deep → f.Keeps deep → g.Keeps deep
  | _, _, .refl _, _, _, _, h => h
  | _, _, .body (g := g) (q := q) filled read _, sound, _, tells, h => by
      have before := filled.grows.sound sound
      have keeps := filled.keeps sound (Parser.Tells.before (q := q) tells
        read.reads.later.errors) h
      exact keeps.attach (f := { g with parser := q }) (read.reads.tidy before.tidy) read.quoteless
        (read.keeps before tells)
  | _, _, .clause (g := g) (q := q) filled read _ _, sound, _, tells, h => by
      have before := filled.grows.sound sound
      have keeps := filled.keeps sound (Parser.Tells.before (q := q) tells
        read.reads.later.errors) h
      exact keeps.attach (f := { g with parser := q }) (read.reads.tidy before.tidy) read.quoteless
        (read.keeps before tells)
  | _, _, .nested filled inside, sound, _, tells, h => by
      have before := filled.grows.sound sound
      have keeps := filled.keeps sound (Parser.Tells.before tells inside.grows.later.errors) h
      exact inside.keeps ⟨⟨before.tidy.pending, before.tidy.ahead, before.tidy.trailing⟩,
        before.closable, before.strings⟩ tells keeps
  | _, _, .tooDeep (g := g) limit filled _ _, sound, _, tells, h =>
      filled.keeps sound (tells.before (g.parser.later_complainTooDeep limit).errors) h

end

/-! ## Places of literals -/

namespace Tree

variable {t : Tree} {front ts back : List Token} {x : Token}

/-- Behind the tokens `front` the tokens `ts` are children of one node, one right after the
other. -/
def Holds (t : Tree) (front ts : List Token) : Prop :=
  ∃ way u left parts right, Path t way u ∧ u.children = left ++ parts ++ right ∧
    parts.map token? = ts.map some ∧ front = before way ++ leavesAll left

/-- Behind the tokens `front` an operand that is cut short ends with the token. -/
def Tears (t : Tree) (front : List Token) (x : Token) : Prop :=
  ∃ way u left role, Path t way u ∧ u.children = left ++ [.token role x] ∧ u.CutShort left ∧
    front = before way ++ leavesAll left

theorem leavesAll_of_tokens {parts : List Tree} (tokens : parts.map token? = ts.map some) :
    leavesAll parts = ts := by
  induction parts generalizing ts with
  | nil =>
      cases ts with
      | nil => rfl
      | cons => cases tokens
  | cons c parts ih =>
      cases ts with
      | nil => cases tokens
      | cons x ts =>
          obtain ⟨here, rest⟩ := List.cons.inj tokens
          cases c with
          | missing | node => cases here
          | token role y =>
              cases here
              rw [leavesAll_cons, ih rest]
              rfl

/-- A tree that keeps its strings holds a literal of its tokens, or tears it. -/
theorem Keeps.holds {deep : Prop} (keeps : t.Keeps deep) (inside : t.isNode = true)
    (leaves : t.leaves = front ++ x :: (ts ++ back)) (opens : x.kind = .stringStart)
    (closes : ClosesString ts) : t.Holds front (x :: ts) ∨ deep ∧ t.Tears front x := by
  obtain ⟨way, u, left, role, right, path, children, rfl, behind⟩ :=
    exists_path_of_leaves leaves inside
  rcases keeps u (mem_elements_iff_path.mpr ⟨way, path⟩) left _ right x children rfl opens with
    ⟨us, closes', parts, same⟩ | ⟨deep, rfl, short⟩
  · obtain ⟨held, more, rfl, tokens, _⟩ := List.map_eq_append_iff.mp same.symm
    rw [leavesAll_append, leavesAll_of_tokens tokens, List.append_assoc] at behind
    obtain rfl : ts = us := closes.eq_of_prefix closes' ⟨back, behind⟩ (List.prefix_append _ _)
    refine .inl ⟨way, u, left, .token role x :: held, more, path, by simp [children], ?_, rfl⟩
    rw [List.map_cons, tokens]
    rfl
  · exact .inr ⟨deep, way, u, left, role, path, children, short, rfl⟩

end Tree

/-! ## Programs -/

theorem Parser.sound_ofTokens {tokens : List Token} (strings : StringsClose id id tokens) :
    (Parser.ofTokens tokens).Sound := by
  obtain ⟨more, items, behind⟩ := Items.group_stringsClose #[] #[] strings
  refine ⟨tidy_ofTokens tokens, fun _ mem => (by cases mem), ?_⟩
  show StringsClose Item.token (Item.mk []) (Items.group #[] #[] tokens).items
  rwa [items]

namespace Program

theorem parseWithin_keeps (limit : Nat) {tokens : List Token}
    (strings : StringsClose id id tokens) :
    (parseWithin limit tokens).1.Keeps
      (∃ e ∈ (parseWithin limit tokens).2, e.kind = .nestingTooDeep) := by
  have gained := loop_gains limit tokens
  have sound := Parser.sound_ofTokens strings
  have after := gained.grows.sound sound
  have tells : Parser.Tells (∃ e ∈ (parseWithin limit tokens).2, e.kind = .nestingTooDeep)
      (((Parser.ofTokens tokens).start .program).loop (step (.stack limit limit))).parser := by
    intro cut
    by_contra none
    exact cut fun e mem deep => none ⟨e, mem, deep⟩
  have keeps := gained.keeps NodeKind.noConfusion sound tells (Frame.keeps_start _ _)
  have each : ∀ c ∈ (parseWithin limit tokens).1.children, c.Quoteless ∧ c.Keeps
      (∃ e ∈ (parseWithin limit tokens).2, e.kind = .nestingTooDeep) := by
    intro c child
    rcases mem_children_finish.mp child with child | child | child
    · exact keeps c child
    · exact ⟨(after.tidy.pending c child).quoteless, (after.tidy.pending c child).keeps⟩
    · exact ⟨(after.tidy.trailing c child).quoteless, (after.tidy.trailing c child).keeps⟩
  exact keeps_of_children (mends_of_quoteless fun c child => (each c child).1) fun c child =>
    (each c child).2

/-- Without any room for nesting an empty string loses its end. -/
example :
    let opening : Token := ⟨.stringStart, "'", default⟩
    let closing : Token := ⟨.stringEnd, "'", default⟩
    ((parseWithin 0 [opening, closing]).1.elements.any fun u =>
      u.nodeKind? == some .error && u.children.map token? == [some opening]) = true := by
  decide +kernel

end Program

/-- **String literals are kept whole.** Among the tokens of a text the parts of strings make up
whole literals, and the tokens of a literal are children of one node, one right after the other. The
one exception is a literal beyond the nesting limit where an operand is put aside: there an error
node of prefix operators ends with the opening quote, and what is left of the literal comes behind
it. -/
theorem parse_keepsStrings (source : String) :
    (∀ front t back, (scan source).1 = front ++ t :: back → t.kind.isStringPart = true →
      ∃ before left right after, front = before ++ left ∧ back = right ++ after ∧
        IsString (left ++ t :: right)) ∧
    ∀ front opening rest back, (scan source).1 = front ++ opening :: (rest ++ back) →
      IsString (opening :: rest) → (parse source).tree.Holds front (opening :: rest) ∨
        (∃ e ∈ (parse source).parseErrors, e.kind = .nestingTooDeep) ∧
          (parse source).tree.Tears front opening := by
  have literals := scan_literals source
  refine ⟨fun front t back => literals.part, fun front opening rest back split string => ?_⟩
  obtain ⟨opens, closes⟩ := isString_cons.mp string
  have keeps := Program.parseWithin_keeps Program.maxDepth literals.stringsClose
  obtain ⟨inside, last, ended, running, eof, _⟩ := (scan_lossless source).2.2.ended
  have leaves : (parse source).tree.leaves = inside := by
    refine (Program.leaves_parse (scan source).1).trans ?_
    rw [ended, List.takeWhile_append_of_pos fun t mem => by simpa using running t mem]
    simp [eof]
  rw [ended] at split
  -- A literal does not end with the end of input, so that comes behind it.
  rcases List.eq_nil_or_concat back with rfl | ⟨more, z, rfl⟩
  · rcases List.eq_nil_or_concat rest with rfl | ⟨more, z, rfl⟩
    · rcases closes with none | none <;> cases none
    · have same : inside ++ [last] = (front ++ opening :: more) ++ [z] := by simpa using split
      obtain ⟨_, single⟩ := List.append_inj' same rfl
      cases single
      rcases closes.kind last (by simp) with kind | kind <;> cases eof.symm.trans kind
  · have same : inside ++ [last] = (front ++ opening :: (rest ++ more)) ++ [z] := by
      simpa using split
    obtain ⟨whole, _⟩ := List.append_inj' same rfl
    exact keeps.holds rfl (leaves.trans whole) opens closes

end JassSyntax
