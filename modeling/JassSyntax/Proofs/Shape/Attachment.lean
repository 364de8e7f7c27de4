import JassSyntax.Proofs.Reading.Conservation
import JassSyntax.Proofs.Tree.Paths

/-!
# Where comments stand

A comment belongs to the token behind it. It is read together with that token, waits while the token
is handed up through the operators that may follow, and becomes a child of the node that takes the
token, right in front of it. So among the children of a node comments lead up to tokens. Only the
comments behind the last token of a text have none to lead up to, and the program takes them.
-/

namespace JassSyntax

open JassSyntax.Tree

/-! ## Comments among trees -/

namespace Tree

/-- The trees begin with a token that is no comment, other comments aside. -/
def BeginWith (x : Token) (ts : List Tree) : Prop :=
  ∃ comments role rest, ts = comments ++ .token role x :: rest ∧
    (∀ c ∈ comments, c.isComment = true) ∧ x.isTrivia = false

/-- Behind every comment among the trees comes a token that is none, other comments aside. -/
def CommentsLead (ts : List Tree) : Prop :=
  ∀ left c right, ts = left ++ c :: right → c.isComment = true → ∃ x, BeginWith x right

variable {ts us : List Tree} {t : Tree} {x : Token}

theorem BeginWith.append (h : BeginWith x ts) (us : List Tree) : BeginWith x (ts ++ us) := by
  obtain ⟨comments, role, rest, rfl, leading, plain⟩ := h
  exact ⟨comments, role, rest ++ us, by simp, leading, plain⟩

theorem CommentsLead.nil : CommentsLead [] := fun _ _ _ split => by simp at split

theorem CommentsLead.append (first : CommentsLead ts) (second : CommentsLead us) :
    CommentsLead (ts ++ us) := by
  intro left c right split comment
  rcases List.append_eq_append_iff.mp split with ⟨more, rfl, rest⟩ | ⟨more, rfl, rest⟩
  · exact second more c right rest comment
  · cases more with
    | nil => exact second [] c right rest.symm comment
    | cons d more =>
        obtain ⟨rfl, rfl⟩ := List.cons_eq_cons.mp rest
        obtain ⟨x, begins⟩ := first left c more rfl comment
        exact ⟨x, begins.append us⟩

theorem CommentsLead.part (plain : t.isComment = false) : CommentsLead [t] := by
  intro left c right split comment
  have mem : c ∈ [t] := split ▸ by simp
  rw [List.mem_singleton.mp mem, plain] at comment
  cases comment

theorem CommentsLead.token {comments : List Tree} (role : Option Role)
    (leading : ∀ c ∈ comments, c.isComment = true) (plain : x.isTrivia = false) :
    CommentsLead (comments ++ [.token role x]) := by
  induction comments with
  | nil => exact .part plain
  | cons d comments ih =>
      have rest := ih fun c mem => leading c (List.mem_cons_of_mem d mem)
      intro left c right split comment
      cases left with
      | nil =>
          obtain ⟨-, rfl⟩ := List.cons_eq_cons.mp split
          exact ⟨x, comments, role, [], rfl,
            fun c mem => leading c (List.mem_cons_of_mem d mem), plain⟩
      | cons e left =>
          obtain ⟨-, split⟩ := List.cons_eq_cons.mp split
          exact rest left c right split comment

/-- In no node of the tree a comment stands anywhere but in front of a token. The inside of a
comment does not count. -/
def Leading (t : Tree) : Prop :=
  ∀ e ∈ t.elements, e.nodeKind? ≠ some .blockComment → CommentsLead e.children

theorem leading_of_children (here : CommentsLead t.children)
    (below : ∀ c ∈ t.children, c.Leading) : t.Leading := by
  intro e mem whole
  rcases mem_elements.mp mem with rfl | ⟨c, child, mem⟩
  · exact here
  · exact below c child e mem whole

theorem leading_of_childless (none : t.children = []) : t.Leading :=
  leading_of_children (none ▸ .nil) fun c child => by
    rw [none] at child
    cases child

theorem Comment.leading (h : t.Comment) : t.Leading := by
  intro e mem whole
  have comment := h.elements e mem
  cases comment with
  | token => exact .nil
  | block => exact absurd rfl whole

theorem Leading.withRole (h : t.Leading) (role : Option Role) : (t.withRole role).Leading := by
  have self := h t (self_mem_elements t)
  intro e mem whole
  rcases mem_elements.mp mem with rfl | ⟨c, child, mem⟩
  · rw [nodeKind?_withRole] at whole
    rw [children_withRole]
    exact self whole
  · rw [children_withRole] at child
    exact h e (mem_elements_below child mem) whole

end Tree

/-! ## Nodes under construction -/

/-- Among the children so far and below them comments lead up to tokens. -/
structure Frame.Leading (f : Frame) : Prop where
  children : CommentsLead f.children.toList
  below : ∀ t ∈ f.children.toList, t.Leading

namespace Frame.Leading

variable {f : Frame}

theorem start (p : Parser) (kind : NodeKind) : (p.start kind).Leading :=
  ⟨.nil, fun _ mem => by cases mem⟩

/-- The comments that wait are those of the token that is put in. -/
theorem attach (h : f.Leading) (tidy : f.parser.Tidy) {t : Tree} (role : Option Role)
    (leading : t.Leading) (plain : t.isComment = false)
    (waiting : f.parser.pending = [] ∨ t.isNode = false ∧ t.isMissing = false) :
    (f.attach role t).Leading := by
  have rest : CommentsLead (f.parser.pending ++ [t.withRole role]) := by
    rcases waiting with none | ⟨leaf, there⟩
    · rw [none]
      exact .part (by rw [isComment_withRole, plain])
    · cases t with
      | token _ x => exact .token role (fun c mem => (tidy.pending c mem).isComment) plain
      | missing => cases there
      | node => cases leaf
  constructor
  · rw [children_attach, List.append_assoc]
    exact h.children.append rest
  · intro u mem
    rw [children_attach, List.mem_append, List.mem_append, List.mem_singleton] at mem
    rcases mem with (mem | mem) | rfl
    · exact h.below u mem
    · exact (tidy.pending u mem).leading
    · exact leading.withRole role

theorem bump (h : f.Leading) (tidy : f.parser.Tidy) (free : f.parser.pending = [])
    (role : Option Role) : (f.bump role).Leading := by
  cases head : f.parser.ahead.head? with
  | none =>
      have same : (f.bump role).children.toList = f.children.toList := by
        rw [bump_of_none head, children_flush, free, List.append_nil]
      exact ⟨same ▸ h.children, same ▸ h.below⟩
  | some item =>
      have before := tidy.of_head head
      have same : (f.bump role).children.toList =
          f.children.toList ++ (item.comments ++ [.token role item.token]) := by
        rw [children_bump head, free]
        simp
      constructor
      · rw [same]
        exact h.children.append
          (.token role (fun c mem => (before.comments c mem).isComment) before.plain)
      · intro u mem
        rw [same, List.mem_append, List.mem_append, List.mem_singleton] at mem
        rcases mem with mem | mem | rfl
        · exact h.below u mem
        · exact (before.comments u mem).leading
        · exact leading_of_childless rfl

theorem bumps (h : f.Leading) (tidy : f.parser.Tidy) (free : f.parser.pending = []) (n : Nat) :
    (f.bumps n).Leading := by
  induction n generalizing f with
  | zero => exact h
  | succ n ih => exact ih (h.bump tidy free none) (tidy_bump tidy none) (f.pending_bump none)

theorem close {closer : Kind} (h : f.Leading) (tidy : f.parser.Tidy)
    (free : f.parser.pending = []) (closes : f.kind.closer = some closer) : f.close.Leading := by
  rcases close_cases closes with ⟨_, e⟩ | ⟨_, span, e⟩ <;> rw [e]
  · exact h.bump tidy free _
  · exact attach (f := { f with parser := f.parser.complainAt span _ }) ⟨h.children, h.below⟩
      (tidy.complainAt _ _) _ (leading_of_childless rfl) rfl (.inl free)

theorem finish (h : f.Leading) : f.finish.1.Leading :=
  leading_of_children h.children h.below

end Frame.Leading

/-! ## Traces -/

/-- What the comments that wait may be, once `e` has been read from `p` on: none, or those in front
of a single token, and then that token is what has been read. -/
def Parser.HoldsBack (p : Parser) (e : Tree × Parser) : Prop :=
  e.2.pending = [] ∨ ∃ item : Item, item :: e.2.ahead.toList <:+ p.ahead.toList ∧
    e.1 = .token none item.token ∧ e.2.pending = item.comments

theorem Reads.holdsBack : ∀ {p q : Parser} {t : Tree}, Reads p t q → p.pending = [] →
    p.HoldsBack (t, q)
  | p, _, _, @Reads.leaf _ item here, free => by
      obtain ⟨rest, ahead⟩ := List.head?_eq_some_iff.mp here
      simp only [Parser.takeLeaf, here]
      refine .inr ⟨item, ?_, rfl, ?_⟩
      · show item :: p.ahead.toList.tail <:+ p.ahead.toList
        rw [ahead]
        exact List.suffix_refl _
      · show p.pending ++ item.comments = item.comments
        rw [free, List.nil_append]
  | _, _, _, .node _ _ grown, free => .inl (grown.pending_nil free)
  | _, _, _, .around _ _ _ grown, _ => .inl (grown.pending_nil rfl)
  | _, _, _, .absent, free => .inl free
  | _, _, _, .stray _ grown, _ => .inl (grown.pending_nil (Frame.pending_bump _ _))
  | _, _, _, .tooDeep (n := n) _, _ =>
      .inl ((Grows.refl _).bumps (n := n) |>.pending_nil (Frame.pending_bump _ none))
  | p, _, _, .absentTooDeep, free => .inl ((Level.complainTooDeep_pending _ p).trans free)
  | _, _, _, .noticing read, free => read.holdsBack free
  | _, _, _, .nested read, free => read.holdsBack free

/-- Only what is a token of its own leaves comments that wait. -/
theorem Reads.waiting {p q : Parser} {t : Tree} (read : Reads p t q) (free : p.pending = []) :
    q.pending = [] ∨ t.isNode = false ∧ t.isMissing = false := by
  refine (read.holdsBack free).imp_right ?_
  rintro ⟨item, -, token, -⟩
  obtain rfl : t = .token none item.token := token
  exact ⟨rfl, rfl⟩

mutual

theorem Reads.leading : ∀ {p q : Parser} {t : Tree}, Reads p t q → p.Tidy → p.pending = [] →
    t.Leading
  | p, _, _, .leaf here, _, _ => by
      simp only [Parser.takeLeaf, here]
      exact leading_of_childless rfl
  | _, _, _, .node _ _ grown, tidy, free =>
      (grown.leading tidy free (Frame.Leading.start _ _)).finish
  | _, _, _, @Reads.around _ q _ role _ kind _ first grown, tidy, free =>
      have after := first.tidy tidy
      have begun := (Frame.Leading.start q kind).attach after role (first.leading tidy free)
        (first.isPart tidy).significant (first.waiting free)
      (grown.leading (Frame.tidy_attach after _ _) rfl begun).finish
  | _, _, _, .absent, _, _ => leading_of_childless rfl
  | p, _, _, .stray (c := c) _ grown, tidy, free =>
      have after := tidy.complainAt p.span c
      have begun := (Frame.Leading.start (p.complain c) .error).bump after free none
      (grown.leading (Frame.tidy_bump after none) (Frame.pending_bump _ _) begun).finish
  | p, _, _, @Reads.tooDeep _ limit n _, tidy, free =>
      have after := (Level.complainTooDeep_pending limit p).trans free
      ((Frame.Leading.start _ .error).bumps (tidy.complainTooDeep _) after (n + 1)).finish
  | _, _, _, .absentTooDeep, _, _ => leading_of_childless rfl
  | _, _, _, .noticing read, tidy, free =>
      read.leading ⟨tidy.pending, tidy.ahead, tidy.trailing⟩ free
  | _, _, _, .nested read, tidy, free =>
      read.leading ⟨tidy.pending, tidy.ahead, tidy.trailing⟩ free

theorem Grows.leading : ∀ {f g : Frame}, Grows f g → f.parser.Tidy → f.parser.pending = [] →
    f.Leading → g.Leading
  | _, _, .refl _, _, _, h => h
  | _, _, .bump grown, tidy, free, h =>
      (grown.leading tidy free h).bump (grown.tidy tidy) (grown.pending_nil free) _
  | _, _, .attach (g := g) (q := q) grown read, tidy, free, h =>
      have before := grown.tidy tidy
      have none := grown.pending_nil free
      have filled := grown.leading tidy free h
      Frame.Leading.attach (f := { g with parser := q }) ⟨filled.children, filled.below⟩
        (read.tidy before) _ (read.leading before none) (read.isPart before).significant
        (read.waiting none)
  | _, _, .notice grown, tidy, free, h =>
      have filled := grown.leading tidy free h
      ⟨filled.children, filled.below⟩
  | _, _, .block (g := g) (h := k) grown closes _ _ inside, tidy, free, h =>
      have before := grown.tidy tidy
      have none := grown.pending_nil free
      have filled := grown.leading tidy free h
      have whole := inside.leading ⟨before.pending, before.ahead, before.trailing⟩ none
        ⟨filled.children, filled.below⟩
      have after := inside.tidy ⟨before.pending, before.ahead, before.trailing⟩
      Frame.Leading.close (f := { k with parser := k.parser.leaveBlock _ })
        ⟨whole.children, whole.below⟩ ⟨after.pending, after.ahead, after.trailing⟩
        (inside.pending_nil none) (inside.kind ▸ closes)
  | _, _, .nested grown inside, tidy, free, h =>
      have before := grown.tidy tidy
      have filled := grown.leading tidy free h
      have whole := inside.leading ⟨before.pending, before.ahead, before.trailing⟩
        (grown.pending_nil free) ⟨filled.children, filled.below⟩
      ⟨whole.children, whole.below⟩
  | _, _, .drop grown _ _, tidy, free, h =>
      have filled := grown.leading tidy free h
      ⟨filled.children, filled.below⟩
  | _, _, .tooDeep grown _ _, tidy, free, h =>
      have filled := grown.leading tidy free h
      ⟨filled.children, filled.below⟩

end

/-! ## Programs -/

namespace Tree

/-- Where a comment stands that a way leads to, if `right` are the siblings behind it. The first
token behind it that is no comment is one of them, with only comments in between. If there is no
such token, the comment stands in the outermost node, behind everything that is no comment. -/
def Attached (way : List Step) (right : List Tree) : Prop :=
  match (plainTokens (leavesAll right ++ after way)).head? with
  | some x => ∃ comments role rest, right = comments ++ .token role x :: rest ∧
      ∀ c ∈ comments, c.isComment = true
  | none => way = [] ∧ ∀ c ∈ right, c.isComment = true

variable {t u c : Tree} {way : List Step} {left right : List Tree}

theorem Remarked.of_path (h : t.Remarked) (path : Path t way u) : u.Remarked :=
  fun _ mem => h _ (mem_elements_trans mem (mem_elements_iff_path.mpr ⟨way, path⟩))

theorem Attached.of_token {x : Token} (h : BeginWith x right)
    (remarked : ∀ c ∈ right, c.Remarked) : Attached way right := by
  obtain ⟨comments, role, rest, rfl, leading, plain⟩ := h
  have free : plainTokens (leavesAll comments) = [] := plainTokens_leavesAll fun c mem =>
    remarked c (by simp [mem]) c (self_mem_elements c) (leading c mem)
  have next : (plainTokens (leavesAll (comments ++ .token role x :: rest) ++ after way)).head? =
      some x := by
    simp [plainTokens_append, free, leaves]
    simp [plainTokens, plain]
  unfold Attached
  rw [next]
  exact ⟨comments, role, rest, rfl, leading⟩

theorem Attached.of_comments (comments : ∀ c ∈ right, c.Comment) : Attached [] right := by
  unfold Attached
  rw [after, List.append_nil, plainTokens_leavesAll comments]
  exact ⟨rfl, fun c mem => (comments c mem).isComment⟩

end Tree

namespace Program

/-- In a program comments lead up to tokens, up to those at its end. -/
theorem leading_parseWithin (limit : Nat) (tokens : List Token) :
    ∃ cs comments, (parseWithin limit tokens).1.children = cs ++ comments ∧ CommentsLead cs ∧
      (∀ c ∈ cs, c.Leading) ∧ ∀ c ∈ comments, c.Comment := by
  have before := Parser.tidy_ofTokens tokens
  have grown := loop_grows limit tokens
  have filled := grown.leading before rfl (Frame.Leading.start _ _)
  refine ⟨_, _, ?_, filled.children, filled.below, (grown.tidy before).trailing⟩
  simp [parseWithin, finish, Tree.children, Frame.flush, grown.pending_nil rfl]

/-- Below a program comments lead up to tokens everywhere. -/
theorem leading_of_child {limit : Nat} {tokens : List Token} {c : Tree}
    (child : c ∈ (parseWithin limit tokens).1.children) : c.Leading := by
  obtain ⟨cs, comments, children, -, below, last⟩ := leading_parseWithin limit tokens
  rw [children] at child
  rcases List.mem_append.mp child with child | child
  · exact below c child
  · exact (last c child).leading

/-- **Comments attach to the next token.** Wherever a comment stands in the tree of a text, outside
the block comments themselves, the first token behind it that is no comment is a child of the same
node and stands right behind it, other comments aside. A comment with no such token behind it is a
child of the program and stands behind all statements. -/
theorem parse_comments {tokens : List Token} {way : List Step} {u c : Tree}
    {left right : List Tree} (path : Path (parse tokens).1 way u)
    (whole : u.nodeKind? ≠ some .blockComment) (split : u.children = left ++ c :: right)
    (comment : c.isComment = true) :
    (tokens.takeWhile fun t => t.kind != .eof) =
        before way ++ (leavesAll left ++ c.leaves ++ leavesAll right) ++ after way ∧
      Attached way right := by
  constructor
  · have own : u.leaves = leavesAll (left ++ c :: right) := by
      cases u with
      | token | missing => simp [children] at split
      | node => exact congrArg leavesAll split
    have placed : (parse tokens).1.leaves = tokens.takeWhile fun t => t.kind != .eof :=
      leaves_parseWithin maxDepth tokens
    rw [← placed, path.leaves, own]
    simp
  obtain ⟨cs, comments, children, lead, -, last⟩ := leading_parseWithin maxDepth tokens
  have remarked : (parse tokens).1.Remarked := remarked_parseWithin maxDepth tokens
  have below : ∀ d ∈ (parse tokens).1.children, d.Leading := fun d => leading_of_child
  change (parse tokens).1.children = cs ++ comments at children
  generalize (parse tokens).1 = program at path children remarked below
  have inside : ∀ d ∈ right, d.Remarked := fun d mem =>
    (remarked.of_path path).of_child (by rw [split]; simp [mem])
  cases path with
  | here =>
      rw [children] at split
      rcases List.append_eq_append_iff.mp split with ⟨more, rfl, rfl⟩ | ⟨more, rfl, rest⟩
      · exact .of_comments fun d mem => last d (by simp [mem])
      · cases more with
        | nil =>
            obtain rfl : c :: right = comments := rest
            exact .of_comments fun d mem => last d (List.mem_cons_of_mem c mem)
        | cons d more =>
            obtain ⟨rfl, rfl⟩ := List.cons_eq_cons.mp rest
            obtain ⟨x, begins⟩ := lead left c more rfl comment
            exact .of_token (begins.append comments) inside
  | @down role kind span left' right' child _ way rest =>
      have mem : u ∈ child.elements := mem_elements_iff_path.mpr ⟨way, rest⟩
      have among : child ∈ left' ++ child :: right' := by simp
      obtain ⟨x, begins⟩ := below child among u mem whole left c right split comment
      exact .of_token begins inside

/-- The text `x = -- one`, `f(/* two */ 1) -- three`. The first comment stands in the call. -/
theorem parse_comments_call :
    let tokens : List Token := [⟨.identifier, "x", default⟩, ⟨.equals, "=", default⟩,
      ⟨.lineComment, "-- one", default⟩, ⟨.identifier, "f", default⟩, ⟨.lParen, "(", default⟩,
      ⟨.blockCommentStart, "/*", default⟩, ⟨.blockCommentContent, " two ", default⟩,
      ⟨.blockCommentEnd, "*/", default⟩, ⟨.number, "1", default⟩, ⟨.rParen, ")", default⟩,
      ⟨.lineComment, "-- three", default⟩]
    ∃ way u left c right, Path (parse tokens).1 way u ∧ u.nodeKind? = some .functionCall ∧
      u.children = left ++ c :: right ∧ c.isComment = true ∧ Attached way right := by
  intro tokens
  have found : ((parse tokens).1.follow [0, 0, 2]).any fun e =>
      e.2.nodeKind? == some .functionCall && e.2.children.any isComment := by decide +kernel
  obtain ⟨⟨way, u⟩, follows, call⟩ := (Option.any_eq_true _ _).mp found
  rw [Bool.and_eq_true, beq_iff_eq, List.any_eq_true] at call
  obtain ⟨node, c, child, comment⟩ := call
  obtain ⟨left, right, split⟩ := List.append_of_mem child
  have path := path_of_follow follows
  exact ⟨way, u, left, c, right, path, node, split, comment,
    (parse_comments path (by rw [node]; decide) split comment).2⟩

end Program

end JassSyntax
