import JassSyntax.Proofs.Faults.Budget
import JassSyntax.Proofs.Recovery.Blame
import Mathlib.Data.List.NodupEquivFin
import Mathlib.Data.List.TakeWhile

/-!
# Where errors point

An error is about the token at which reading stands when it is recorded, and names its kind. It is
shown at that token too, except that a missing closer is shown at a keyword before it that opens a
block. Reading goes forward only, so the errors come in the order of the tokens that they are about.
-/

namespace JassSyntax

open JassSyntax.Tree

/-! ## Places -/

/-- The keywords that open blocks. -/
def Kind.blockOpeners : List Kind :=
  [.kwFunction, .kwIf, .kwWhile, .kwDo, .kwStruct, .kwGlobals, .kwLoop, .kwRepeat]

theorem NodeKind.mem_blockOpeners {k : NodeKind} {w : Kind} (opens : k.opening? = some w) :
    w ∈ Kind.blockOpeners := by
  revert opens
  cases k <;> (rintro ⟨⟩ <;> decide)

/-- A keyword that opens a block has the span and stands before the place. -/
def OpensBefore (stream : List Token) (n : Nat) (span : Span) : Prop :=
  ∃ m < n, ∃ x, stream[m]? = some x ∧ x.kind ∈ Kind.blockOpeners ∧ x.span = span

/-- The error is about the token at the place. -/
structure ParseError.Marks (stream : List Token) (e : ParseError) (n : Nat) : Prop where
  found : ∃ x, stream[n]? = some x ∧ x.isTrivia = false ∧ x.kind = e.found ∧
    (e.kind ≠ .missingCloser → x.span = e.span)
  opener : e.kind = .missingCloser → OpensBefore stream n e.span

variable {stream : List Token}

theorem OpensBefore.mono {m n : Nat} (le : m ≤ n) {span : Span}
    (h : OpensBefore stream m span) : OpensBefore stream n span := by
  obtain ⟨k, before, x⟩ := h
  exact ⟨k, Nat.lt_of_lt_of_le before le, x⟩

/-- Where a stream is part of another one, errors are about the same tokens there. -/
theorem ParseError.Marks.embed {whole : List Token} {f : Nat ↪o Nat}
    (same : ∀ n, stream[n]? = whole[f n]?) {e : ParseError} {n : Nat} (h : e.Marks stream n) :
    e.Marks whole (f n) where
  found := by
    obtain ⟨x, here, rest⟩ := h.found
    exact ⟨x, same n ▸ here, rest⟩
  opener sort := by
    obtain ⟨m, before, x, here, rest⟩ := h.opener sort
    exact ⟨f m, f.lt_iff_lt.mpr before, x, same m ▸ here, rest⟩

/-! ## Parsers -/

namespace Parser

/-- The tokens from here on, comments aside, and the end of input. -/
def view (p : Parser) : List Token := p.rest ++ p.eof.toList

/-- How far the parser has come in the stream. -/
def place (stream : List Token) (p : Parser) : Nat := stream.length - p.view.length

/-- The parser stands in the stream, and its errors are about tokens up to here, in their order. -/
structure Located (stream : List Token) (p : Parser) : Prop where
  view : p.view <:+ stream
  eof : ∃ last, p.eof = some last ∧ last.kind = .eof
  errors : ∃ places, List.Forall₂ (ParseError.Marks stream) p.errors.toList places ∧
    places.Pairwise (· ≤ ·) ∧ ∀ n ∈ places, n ≤ p.place stream

variable {p q : Parser}

theorem view_suffix (ahead : q.ahead.toList <:+ p.ahead.toList) (eof : q.eof = p.eof) :
    q.view <:+ p.view := by
  obtain ⟨front, ahead⟩ := ahead
  refine ⟨front.map Item.token, ?_⟩
  rw [view, view, rest, rest, eof, ← ahead, List.map_append, List.append_assoc]

/-- Places never decrease. -/
theorem Later.place_le (later : p.Later q) : p.place stream ≤ q.place stream :=
  Nat.sub_le_sub_left (view_suffix later.ahead later.eof).length_le _

namespace Located

/-- Going on without a complaint. -/
theorem onward (h : p.Located stream) (ahead : q.ahead.toList <:+ p.ahead.toList)
    (eof : q.eof = p.eof) (errors : q.errors = p.errors) : q.Located stream where
  view := (view_suffix ahead eof).trans h.view
  eof := eof ▸ h.eof
  errors := by
    obtain ⟨places, marks, sorted, before⟩ := h.errors
    refine ⟨places, errors ▸ marks, sorted, fun n mem => ?_⟩
    exact Nat.le_trans (before n mem)
      (Nat.sub_le_sub_left (view_suffix ahead eof).length_le _)

theorem later (h : p.Located stream) (later : p.Later q) (errors : q.errors = p.errors) :
    q.Located stream :=
  h.onward later.ahead later.eof errors

/-- What stands at the place of a parser is its current token. -/
theorem current (h : p.Located stream) (tidy : p.Tidy) :
    ∃ x, stream[p.place stream]? = some x ∧ x.isTrivia = false ∧ x.kind = p.kind ∧
      x.span = p.span := by
  obtain ⟨front, whole⟩ := h.view
  have place : p.place stream = front.length := by
    rw [Parser.place, ← whole, List.length_append, Nat.add_sub_cancel]
  rw [place, ← whole, List.getElem?_append_right (Nat.le_refl _), Nat.sub_self,
    ← List.head?_eq_getElem?]
  cases head : p.ahead.head? with
  | some item =>
      obtain ⟨items, ahead⟩ := List.head?_eq_some_iff.mp head
      refine ⟨item.token, ?_, (tidy.of_head head).plain, ?_, ?_⟩
      · simp [Parser.view, rest, ahead]
      · rw [Parser.kind, head]
      · rw [Parser.span, head]
  | none =>
      obtain ⟨last, eof, kind⟩ := h.eof
      refine ⟨last, ?_, ?_, ?_, ?_⟩
      · simp [Parser.view, rest, List.head?_eq_none_iff.mp head, eof]
      · rw [Token.isTrivia, kind]
        rfl
      · rw [Parser.kind, head, kind]
      · rw [Parser.span, head, endSpan, eof]

theorem complainAt (h : p.Located stream) (tidy : p.Tidy) {span : Span} {c : Complaint}
    (own : c.sort ≠ .missingCloser → span = p.span)
    (opener : c.sort = .missingCloser → OpensBefore stream (p.place stream) span) :
    (p.complainAt span c).Located stream where
  view := h.view
  eof := h.eof
  errors := by
    obtain ⟨places, marks, sorted, before⟩ := h.errors
    obtain ⟨x, here, plain, kind, at_⟩ := h.current tidy
    have new : (c.toError span p.kind).Marks stream (p.place stream) :=
      ⟨⟨x, here, plain, kind, fun other => at_.trans (own other).symm⟩, opener⟩
    refine ⟨places ++ [p.place stream], ?_, ?_, fun n mem => ?_⟩
    · rw [Parser.complainAt, Array.toList_push]
      exact List.rel_append marks (.cons new .nil)
    · refine List.pairwise_append.mpr ⟨sorted, List.pairwise_singleton _ _, fun n mem m last => ?_⟩
      rw [List.mem_singleton.mp last]
      exact before n mem
    · rcases List.mem_append.mp mem with mem | mem
      · exact before n mem
      · rw [List.mem_singleton.mp mem]
        exact Nat.le_refl _

theorem complain (h : p.Located stream) (tidy : p.Tidy) {c : Complaint}
    (other : c.sort ≠ .missingCloser) : (p.complain c).Located stream :=
  h.complainAt tidy (fun _ => rfl) fun same => absurd same other

theorem complainTooDeep (h : p.Located stream) (tidy : p.Tidy) (limit : Nat) :
    (Level.complainTooDeep limit p).Located stream := by
  rcases Level.complainTooDeep_cases limit p with e | e <;> rw [e]
  · exact h
  · exact h.complain tidy ParseErrorKind.noConfusion

/-- A token that opens a block is before what comes behind it. -/
theorem opensBefore (h : p.Located stream) (tidy : p.Tidy) (opens : p.kind ∈ Kind.blockOpeners)
    {n : Nat} (behind : p.place stream < n) : OpensBefore stream n p.span := by
  obtain ⟨x, here, -, kind, span⟩ := h.current tidy
  exact ⟨p.place stream, behind, x, here, kind ▸ opens, span⟩

end Located

end Parser

/-! ## Trees -/

namespace Tree

variable {A B : Span → Prop} {t : Tree}

/-- All constructs in the tree that have a closer begin in `A`. -/
def Opens (A : Span → Prop) (t : Tree) : Prop :=
  ∀ e ∈ t.elements, ∀ k, e.nodeKind? = some k → k.closer ≠ none → ∀ x, e.firstToken? = some x →
    A x.span

theorem Opens.mono (h : t.Opens A) (sub : ∀ s, A s → B s) : t.Opens B :=
  fun e mem k node closes x first => sub _ (h e mem k node closes x first)

theorem Opens.of_element {e : Tree} (h : t.Opens A) (mem : e ∈ t.elements) : e.Opens A :=
  fun _ inner => h _ (mem_elements_trans inner mem)

theorem Opens.of_child {c : Tree} (h : t.Opens A) (child : c ∈ t.children) : c.Opens A :=
  h.of_element (mem_elements_of_child child)

/-- A tree opens where it does itself and where its children do. -/
theorem opens_of_children (below : ∀ c ∈ t.children, c.Opens A)
    (here : ∀ k, t.nodeKind? = some k → k.closer ≠ none → ∀ x, t.firstToken? = some x →
      A x.span) : t.Opens A := by
  intro e mem
  rcases mem_elements.mp mem with rfl | ⟨c, child, mem⟩
  · exact here
  · exact below c child e mem

theorem opens_token (role : Option Role) (x : Token) : (Tree.token role x).Opens A :=
  opens_of_children (fun c child => by cases child) fun k node => by cases node

theorem opens_missing (role : Option Role) (kind : Kind) (place : Position) :
    (Tree.missing role kind place).Opens A :=
  opens_of_children (fun c child => by cases child) fun k node => by cases node

theorem Opens.withRole (h : t.Opens A) (role : Option Role) : (t.withRole role).Opens A := by
  refine opens_of_children (fun c child => h.of_child (by simpa using child)) fun k node => ?_
  rw [nodeKind?_withRole] at node
  rw [firstToken?, children_withRole]
  exact h t (self_mem_elements t) k node

theorem Comment.opens (comment : t.Comment) : t.Opens A := by
  intro e mem k node closes
  obtain ⟨closer, closes⟩ := Option.ne_none_iff_exists'.mp closes
  exact absurd (comment.elements e mem) (not_comment_of_closer node closes)

theorem opens_of_trailingBodyOf? {cs : List Tree} {b : Tree} (below : ∀ c ∈ cs, c.Opens A)
    (ends : trailingBodyOf? cs = some b) : b.Opens A := by
  have mem := trailingBodyOf?_mem ends
  rw [elementsAll_eq_flatMap, List.mem_flatMap] at mem
  obtain ⟨c, child, mem⟩ := mem
  exact (below c child).of_element mem

end Tree

/-- Suspicion moves from one beginning of a construct to another. -/
theorem Suspect.inward_opens {A : Span → Prop} {closer : Kind} {s : Suspect} (opener : A s.opener)
    (body : ∀ b, s.body = some b → b.Opens A) :
    A (s.inward closer).1.opener ∧ ∀ b, (s.inward closer).1.body = some b → b.Opens A := by
  unfold inward
  split
  · next last found =>
    split
    · next closed =>
      obtain ⟨b, suspected, found⟩ := Option.bind_eq_some_iff.mp found
      obtain ⟨k, node, closes, -⟩ := isClosedBy_cases closed
      have inside := (body b suspected).of_child (mem_children_of_lastStatement? found)
      refine ⟨?_, fun c => opens_of_trailingBodyOf? fun d => inside.of_child⟩
      cases first : last.firstToken? with
      | none => exact opener
      | some x =>
          have ends : k.closer ≠ none := by rw [closes]; exact Option.some_ne_none _
          exact inside last (self_mem_elements last) k node ends x first
    · exact ⟨opener, body⟩
  · exact ⟨opener, body⟩

theorem blamed_opens {A : Span → Prop} {opener : Span} {children : List Tree} {closer : Kind}
    (here : A opener) (below : ∀ c ∈ children, c.Opens A) : A (blamed opener children closer) :=
  Loop.run_rule (P := fun s : Suspect => A s.opener ∧ ∀ b, s.body = some b → b.Opens A)
    (Q := fun s : Suspect => A s.opener) (fun _ h _ => Suspect.inward_opens h.1 h.2)
    (fun _ h _ => (Suspect.inward_opens h.1 h.2).1)
    (fun _ h _ _ => (Suspect.inward_opens h.1 h.2).1)
    ⟨here, fun _ => opens_of_trailingBodyOf? below⟩

/-! ## Frames -/

/-- A tree that has been read, and the parser behind it: the constructs in it begin before. -/
structure Lands (stream : List Token) (t : Tree) (q : Parser) : Prop where
  parser : q.Located stream
  tree : t.Opens (OpensBefore stream (q.place stream))

namespace Frame

/-- The constructs among the children begin before the parser. -/
structure Located (stream : List Token) (f : Frame) : Prop where
  parser : f.parser.Located stream
  children : ∀ c ∈ f.children.toList, c.Opens (OpensBefore stream (f.parser.place stream))

variable {p q : Parser} {f g : Frame}

theorem located_start (h : p.Located stream) (kind : NodeKind) : (p.start kind).Located stream :=
  ⟨h, fun c child => by cases child⟩

namespace Located

/-- The children of a frame are before a later parser too. -/
theorem children_of_later (h : f.Located stream) (later : f.parser.Later q) :
    ∀ c ∈ f.children.toList, c.Opens (OpensBefore stream (q.place stream)) :=
  fun c child => (h.children c child).mono fun _ => .mono later.place_le

/-- A frame whose parser has only changed in what places do not depend on. -/
theorem same (h : f.Located stream) (ahead : q.ahead = f.parser.ahead)
    (eof : q.eof = f.parser.eof) (errors : q.errors = f.parser.errors) :
    { f with parser := q }.Located stream where
  parser := h.parser.onward (ahead ▸ List.suffix_refl _) eof errors
  children := by
    have place : q.place stream = f.parser.place stream := by
      rw [Parser.place, Parser.place, Parser.view, Parser.view, Parser.rest, Parser.rest, ahead,
        eof]
    rw [place]
    exact h.children

theorem bump (h : f.Located stream) (tidy : f.parser.Tidy) (role : Option Role) :
    (f.bump role).Located stream := by
  have later : f.parser.Later (f.bump role).parser := (Parser.Later.refl _).bump
  exact ⟨h.parser.later later (f.errors_bump role),
    forall_children_bump tidy (fun _ comment => comment.opens) (h.children_of_later later)
      fun item _ => opens_token role item.token⟩

theorem bumps (h : f.Located stream) (tidy : f.parser.Tidy) (n : Nat) :
    (f.bumps n).Located stream := by
  induction n generalizing f with
  | zero => exact h
  | succ n ih => exact ih (h.bump tidy none) (tidy_bump tidy none)

theorem attach (h : g.Located stream) (later : g.parser.Later q) (tidy : q.Tidy) {t : Tree}
    (read : Lands stream t q) (role : Option Role) :
    ({ g with parser := q }.attach role t).Located stream :=
  ⟨read.parser.onward (List.suffix_refl _) rfl rfl,
    forall_children_attach (f := { g with parser := q }) tidy (fun _ comment => comment.opens)
      (h.children_of_later later.attach) (read.tree.withRole role)⟩

theorem finish (h : f.Located stream)
    (here : f.kind.closer ≠ none → ∀ x, leadingTokenOf? f.children.toList = some x →
      OpensBefore stream (f.parser.place stream) x.span) :
    Lands stream f.finish.1 f.finish.2 where
  parser := h.parser
  tree := opens_of_children h.children fun k node => by
    cases node
    exact here

/-- A node that needs no closer. -/
theorem finish_of_closer (h : f.Located stream) (none : f.kind.closer = none) :
    Lands stream f.finish.1 f.finish.2 :=
  h.finish fun closes => absurd none closes

theorem close (h : f.Located stream) (tidy : f.parser.Tidy) {closer : Kind}
    (closes : f.kind.closer = some closer)
    (opener : OpensBefore stream (f.parser.place stream) f.opener) : f.close.Located stream := by
  by_cases here : f.current = closer
  · have taken : f.close = f.bump (some .closing) := by
      unfold Frame.close
      rw [closes]
      exact if_pos here
    rw [taken]
    exact h.bump tidy _
  · have complained : (f.parser.complainAt
        (if f.current = .eof then blamed f.opener f.children.toList closer else f.opener)
        (.unclosed f.kind closer)).Located stream := by
      refine h.parser.complainAt tidy (fun other => absurd rfl other) fun _ => ?_
      split
      · exact blamed_opens opener h.children
      · exact opener
    rw [Frame.close_of_ne closes here]
    exact h.attach (f.parser.later_complainAt _ _) (tidy.complainAt _ _)
      ⟨complained, opens_missing none closer f.parser.lastEnd⟩ _

end Located

end Frame

/-- A token that is taken is behind the frame. -/
theorem Frame.place_lt_bump {f : Frame} (h : f.parser.Located stream) (here : f.current ≠ .eof)
    (role : Option Role) : f.parser.place stream < (f.bump role).parser.place stream := by
  obtain ⟨item, head, -⟩ := Parser.head_of_kind rfl here
  obtain ⟨items, ahead⟩ := List.head?_eq_some_iff.mp head
  have eof : (f.bump role).parser.eof = f.parser.eof := ((Parser.Later.refl _).bump).eof
  have fits := h.view.length_le
  simp only [Parser.place, Parser.view, Parser.rest, ahead_bump, eof, ahead, List.length_append,
    List.map_cons, List.length_cons, List.tail_cons] at fits ⊢
  omega

/-- The node began with a keyword that opens a block: it is the first token of the node. -/
structure Frame.Opened (stream : List Token) (f : Frame) : Prop where
  opener : OpensBefore stream (f.parser.place stream) f.opener
  first : ∃ x, leadingTokenOf? f.children.toList = some x ∧ x.span = f.opener

namespace Frame

theorem opened_bump {p : Parser} (h : p.Located stream) (tidy : p.Tidy) {kind : NodeKind}
    (opens : kind.opening? = some p.kind) : (p.start kind).bump.Opened stream := by
  have here := NodeKind.ne_eof_of_opening? opens
  obtain ⟨x, leading, span⟩ := leadingTokenOf?_opened tidy here kind
  have begins : (p.start kind).bump.opener = p.span := opener_bump _ _
  constructor
  · rw [begins]
    exact h.opensBefore tidy (NodeKind.mem_blockOpeners opens)
      (place_lt_bump (f := p.start kind) h here none)
  · exact ⟨x, leading, by rw [begins, span]⟩

/-- The first token stays the first one. -/
theorem Opened.grows {f g : Frame} (h : f.Opened stream) (grown : Grows f g) :
    g.Opened stream where
  opener := by
    rw [grown.opener]
    exact h.opener.mono grown.later.place_le
  first := by
    obtain ⟨x, leading, span⟩ := h.first
    obtain ⟨more, children⟩ := grown.children
    refine ⟨x, ?_, by rw [grown.opener, span]⟩
    rw [← children, leadingTokenOf?_append, leading]
    rfl

/-- A construct begins before the parser behind it. -/
theorem Located.finish_of_opened {f : Frame} (h : f.Located stream) (opened : f.Opened stream) :
    Lands stream f.finish.1 f.finish.2 := by
  refine h.finish fun _ x first => ?_
  obtain ⟨y, leading, span⟩ := opened.first
  rw [leading] at first
  cases first
  exact span ▸ opened.opener

end Frame

/-! ## Courses -/

mutual

theorem Forms.lands : ∀ {s : Scope} {p q : Parser} {t : Tree}, Forms s p t q → p.Tidy →
    p.Located stream → Lands stream t q
  | _, p, _, _, .leaf here _, _, h => by
      simp only [Parser.takeLeaf, here]
      exact ⟨h.onward (List.tail_suffix _) rfl rfl, opens_token none _⟩
  | _, _, _, _, .string _ gained _, tidy, h =>
      (gained.located tidy (Frame.located_start h _)).finish_of_closer (gained.grows.kind ▸ rfl)
  | _, _, _, _, .node _ simple _ gained, tidy, h =>
      (gained.located tidy (Frame.located_start h _)).finish_of_closer
        (gained.grows.kind ▸ NodeKind.closer_of_isSimple simple)
  | _, p, _, _, @Forms.around _ _ _ q t role _ kind simple _ first _ _ gained, tidy, h => by
      have after := first.reads.tidy tidy
      have landed := first.lands tidy h
      have begun : ((q.start kind).attach role t).Located stream :=
        (Frame.located_start landed.parser kind).attach (.refl q) after landed role
      exact (gained.located (Frame.tidy_attach after _ _) begun).finish_of_closer
        (gained.grows.kind ▸ NodeKind.closer_of_isSimple simple)
  | _, p, _, _, @Forms.block _ _ g h f kind closer closes opens _ heading inside _ behind _ _,
      tidy, located => by
      have frames := tidy.encloses closes heading inside
      have headed := heading.located (Frame.tidy_bump tidy none)
        ((Frame.located_start located kind).bump tidy none)
      have filled := inside.located ⟨frames.before.pending, frames.before.ahead,
        frames.before.trailing⟩ (headed.same rfl rfl rfl)
      have opened : g.Opened stream := (Frame.opened_bump located tidy opens).grows heading.grows
      have inner : h.Opened stream := Frame.Opened.grows (f := g.entered kind.awaits)
        ⟨opened.opener, opened.first⟩ inside.grows
      have left : (g.left h).Located stream := Frame.Located.close (filled.same rfl rfl rfl)
        ⟨frames.after.pending, frames.after.ahead, frames.after.trailing⟩
        (frames.kind_after ▸ closes) inner.opener
      have closed : Grows g (g.left h) := (Grows.refl g).block (frames.kind_before ▸ closes)
        (NodeKind.awaits_ne_nil closes) (NodeKind.awaits_closing kind) inside.grows
      exact (behind.located frames.left left).finish_of_opened
        ((opened.grows closed).grows behind.grows)
  | _, _, _, _, .clause kind clause heading inside, tidy, h => by
      have headed := heading.located tidy (Frame.located_start h kind)
      exact (inside.located (heading.grows.tidy tidy) headed).finish_of_closer
        (by
          rw [inside.grows.kind, heading.grows.kind]
          exact (NodeKind.closer_of_isClause clause).1)
  | _, p, _, _, .absent other, tidy, h => ⟨h.complain tidy other, opens_missing none _ _⟩
  | _, p, _, _, .mark _ other, tidy, h | _, p, _, _, .aside _ _ _ other, tidy, h =>
      ((Frame.located_start (h.complain tidy other) .error).bump (tidy.complainAt _ _)
        none).finish_of_closer (congrArg NodeKind.closer (Frame.kind_bump _ _))
  | _, p, _, _, .stray (c := c) _ other _ gained, tidy, h => by
      have complained := tidy.complainAt p.span c
      have begun := (Frame.located_start (h.complain tidy other) .error).bump complained none
      refine (gained.located (Frame.tidy_bump complained none) begun).finish_of_closer ?_
      rw [gained.grows.kind, Frame.kind_bump]
      rfl
  | _, p, _, _, .tooDeep limit (n := n) _ _, tidy, h => by
      refine ((Frame.located_start (h.complainTooDeep tidy limit) .error).bumps
        (tidy.complainTooDeep limit) (n + 1)).finish_of_closer ?_
      rw [Frame.kind_bumps]
      rfl
  | _, p, _, _, .absentTooDeep limit, tidy, h =>
      ⟨h.complainTooDeep tidy limit, opens_missing none _ _⟩
  | _, _, _, _, .noticing read, tidy, h =>
      read.lands ⟨tidy.pending, tidy.ahead, tidy.trailing⟩ (h.onward (List.suffix_refl _) rfl rfl)
  | _, _, _, _, .nested read, tidy, h => by
      have landed := read.lands ⟨tidy.pending, tidy.ahead, tidy.trailing⟩
        (h.onward (List.suffix_refl _) rfl rfl)
      exact ⟨landed.parser.onward (List.suffix_refl _) rfl rfl, landed.tree⟩

theorem Gains.located : ∀ {kind : NodeKind} {f g : Frame}, Gains kind f g → f.parser.Tidy →
    f.Located stream → g.Located stream
  | _, _, _, .refl _, _, h => h
  | _, _, _, .bump gained _ _ _, tidy, h =>
      (gained.located tidy h).bump (gained.grows.tidy tidy) _
  | _, _, _, .attach gained read _ _, tidy, h => by
      have before := gained.grows.tidy tidy
      have located := gained.located tidy h
      exact located.attach read.reads.later (read.reads.tidy before)
        (read.lands before located.parser) _
  | _, _, _, .notice gained, tidy, h => (gained.located tidy h).same rfl rfl rfl

theorem Fills.located : ∀ {f g : Frame}, Fills f g → f.parser.Tidy → f.Located stream →
    g.Located stream
  | _, _, .refl _, _, h => h
  | _, _, .body filled read _, tidy, h | _, _, .clause filled read _ _, tidy, h => by
      have before := filled.grows.tidy tidy
      have located := filled.located tidy h
      exact located.attach read.reads.later (read.reads.tidy before)
        (read.lands before located.parser) _
  | _, _, .nested filled inside, tidy, h => by
      have before := filled.grows.tidy tidy
      have located := inside.located ⟨before.pending, before.ahead, before.trailing⟩
        ((filled.located tidy h).same rfl rfl rfl)
      exact located.same rfl rfl rfl
  | _, _, .tooDeep limit filled _ _, tidy, h => by
      have located := filled.located tidy h
      exact ⟨located.parser.complainTooDeep (filled.grows.tidy tidy) limit,
        located.children_of_later (Parser.later_complainTooDeep _ _)⟩

end

/-! ## Programs -/

namespace Program

/-- What a parser has in front of it at first is part of the stream. -/
theorem view_ofTokens_sublist (tokens : List Token) :
    (Parser.ofTokens tokens).view.Sublist tokens := by
  let behind := tokens.dropWhile fun t => t.kind != .eof
  have eof : (Parser.ofTokens tokens).eof = behind.head? :=
    (Items.eof_group #[] #[] tokens).trans (tokens.find?_eq_head?_dropWhile_not _)
  have items : (Parser.ofTokens tokens).rest = plainTokens (Items.beforeEof tokens) :=
    Items.tokens_ofTokens tokens
  have last : behind.head?.toList.Sublist behind := by
    rw [← List.take_one]
    exact List.take_sublist 1 behind
  rw [Parser.view, items, eof]
  calc (plainTokens (Items.beforeEof tokens) ++ behind.head?.toList).Sublist
        (Items.beforeEof tokens ++ behind) := List.filter_sublist.append last
    _ = tokens := List.takeWhile_append_dropWhile

theorem located_ofTokens {tokens : List Token} (ends : ∃ t ∈ tokens, t.kind = .eof) :
    (Parser.ofTokens tokens).Located (Parser.ofTokens tokens).view where
  view := List.suffix_refl _
  eof := by
    obtain ⟨t, mem, kind⟩ := ends
    have found : (tokens.find? fun t => t.kind == .eof).isSome = true :=
      List.find?_isSome.mpr ⟨t, mem, beq_iff_eq.mpr kind⟩
    obtain ⟨last, found⟩ := Option.isSome_iff_exists.mp found
    exact ⟨last, (Items.eof_group #[] #[] tokens).trans found,
      by simpa using List.find?_some found⟩
  errors := ⟨[], .nil, .nil, nofun⟩

theorem parseWithin_marks (limit : Nat) {tokens : List Token}
    (ends : ∃ t ∈ tokens, t.kind = .eof) :
    ∃ places, List.Forall₂ (ParseError.Marks tokens) (parseWithin limit tokens).2 places ∧
      places.Pairwise (· ≤ ·) := by
  have located := (loop_gains limit tokens).located (Parser.tidy_ofTokens tokens)
    (Frame.located_start (located_ofTokens ends) .program)
  obtain ⟨places, marks, sorted, -⟩ := located.parser.errors
  obtain ⟨f, same⟩ :=
    List.sublist_iff_exists_orderEmbedding_getElem?_eq.mp (view_ofTokens_sublist tokens)
  exact ⟨places.map f, List.forall₂_map_right_iff.mpr (marks.imp fun _ _ => .embed same),
    sorted.map f fun _ _ => f.le_iff_le.mpr⟩

/-- **Errors point at their tokens, in order.** For every error about a text that ends there is a
place in the stream with the token that it is about: it names the kind of that token, and does not
expect it. It is shown at that token too, or, if a closer is missing, at a keyword that opens a
block somewhere before. The places never decrease from one error to the next. -/
theorem parse_errors_marked (tokens : List Token) (ends : ∃ t ∈ tokens, t.kind = .eof) :
    (∃ places, List.Forall₂ (ParseError.Marks tokens) (parse tokens).2 places ∧
        places.Pairwise (· ≤ ·)) ∧
      ∀ e ∈ (parse tokens).2, e.found ∉ e.expected :=
  ⟨parseWithin_marks maxDepth ends, apt_parseWithin maxDepth tokens⟩

/-- The text `while -- c` lacks a condition and `do`, which is shown at its end, and `end`, which is
shown at the loop. -/
theorem parse_errors_marked_while :
    let tokens : List Token := [⟨.kwWhile, "while", ⟨⟨0, 0, 0⟩, ⟨5, 0, 5⟩⟩⟩,
      ⟨.lineComment, "-- c", ⟨⟨6, 0, 6⟩, ⟨10, 0, 10⟩⟩⟩, ⟨.eof, "", ⟨⟨10, 0, 10⟩, ⟨10, 0, 10⟩⟩⟩]
    (parse tokens).2.map (fun e => (e.kind, e.found, e.span.start.offset)) =
        [(.unexpectedToken, .eof, 10), (.unexpectedToken, .eof, 10), (.missingCloser, .eof, 0)] ∧
      (∃ places, List.Forall₂ (ParseError.Marks tokens) (parse tokens).2 places ∧
        places.Pairwise (· ≤ ·)) ∧
      ∀ e ∈ (parse tokens).2, e.found ∉ e.expected := by
  intro tokens
  exact ⟨by decide +kernel, parse_errors_marked tokens (by decide)⟩

end Program

end JassSyntax
