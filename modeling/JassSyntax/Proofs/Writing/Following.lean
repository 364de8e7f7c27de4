import JassSyntax.Proofs.Reading.Moves
import JassSyntax.Proofs.Writing.Spelling

/-!
# Reading what is written

A parser that stands before written words, with nothing wrong so far, and a frame whose children are
what they should be. There is one rule for each move: which words it takes, and which child they
become.
-/

namespace JassSyntax

open JassSyntax.Tree

/-- The kind of the first of several words. -/
def firstKind (ws : List Token) : Kind := (ws.head?.map Token.kind).getD .eof

@[simp] theorem firstKind_cons (w : Token) (ws : List Token) : firstKind (w :: ws) = w.kind := rfl

/-! ## Where a parser stands -/

/-- The parser is to read the words, and nothing is wrong so far. Only keywords that begin no
statement close the open blocks. -/
structure Parser.At (depth : Nat) (words : List Token) (p : Parser) : Prop where
  ahead : p.ahead.toList.map (fun item => item.token.bare) = words
  plain : ∀ item ∈ p.ahead.toList, item.comments = []
  pending : p.pending = []
  trailing : p.trailing = []
  errors : p.errors = #[]
  depth : p.depth = depth
  closers : ∀ k ∈ p.openClosers, k.isClosingKeyword = true

/-- The tree has been read, places aside, and the words are left. -/
structure Found (t : Tree) (depth : Nat) (words : List Token) (r : Tree × Parser) : Prop where
  tree : r.1.bare = t
  parser : r.2.At depth words

/-- The node under construction has the children so far, places aside. -/
structure Frame.Holds (kind : NodeKind) (children : List Tree) (depth : Nat) (words : List Token)
    (f : Frame) : Prop where
  kind : f.kind = kind
  children : bareAll f.children.toList = children
  parser : f.parser.At depth words

namespace Parser.At

variable {d : Nat} {w : Token} {ws : List Token} {p : Parser}

theorem kind (h : p.At d ws) : p.kind = firstKind ws := by
  rw [← h.ahead, Parser.kind, Counted.head?]
  cases p.ahead.toList <;> rfl

theorem remaining (h : p.At d ws) : p.remaining = ws.length := by
  rw [← h.ahead, List.length_map]
  exact p.ahead.length_eq

theorem head (h : p.At d (w :: ws)) :
    ∃ item, p.ahead.head? = some item ∧ item.comments = [] ∧ item.token.bare = w := by
  have ahead := h.ahead
  have plain := h.plain
  rw [Counted.head?]
  cases items : p.ahead.toList with
  | nil =>
      rw [items] at ahead
      cases ahead
  | cons item items' =>
      rw [items, List.map_cons] at ahead
      rw [items] at plain
      injection ahead with first _
      exact ⟨item, rfl, plain item List.mem_cons_self, first⟩

theorem advance (h : p.At d (w :: ws)) (item : Item) : (p.advance item).At d ws where
  ahead := by
    show p.ahead.tail.toList.map _ = ws
    rw [Counted.toList_tail, List.map_tail, h.ahead, List.tail_cons]
  plain next mem := h.plain next (List.mem_of_mem_tail mem)
  pending := h.pending
  trailing := h.trailing
  errors := h.errors
  depth := h.depth
  closers := h.closers

theorem noticeEnd (h : p.At d ws) : p.noticeEnd.At d ws :=
  ⟨h.ahead, h.plain, h.pending, h.trailing, h.errors, h.depth, h.closers⟩

theorem second_kind (h : p.At d ws) : p.second.1 = firstKind ws.tail := by
  rw [← h.ahead, ← List.map_tail, ← Counted.toList_tail]
  rcases p.second_cases with ⟨next, tail, e⟩ | ⟨tail, e⟩
  · rw [e]
    rw [Counted.head?] at tail
    rw [firstKind, List.head?_map, tail]
    rfl
  · rw [e]
    rw [Counted.head?] at tail
    rw [firstKind, List.head?_map, tail]
    rfl

theorem second (h : p.At d ws) : p.second.2.At d ws := by
  rcases p.second_looked with e | e <;> rw [e]
  · exact h
  · exact h.noticeEnd

theorem ascend (h : p.At (d + 1) ws) : p.ascend.At d ws where
  ahead := h.ahead
  plain := h.plain
  pending := h.pending
  trailing := h.trailing
  errors := h.errors
  depth := by
    show p.depth - 1 = d
    rw [h.depth, Nat.add_sub_cancel]
  closers := h.closers

theorem descend (h : p.At d ws) : { p with depth := p.depth + 1 }.At (d + 1) ws :=
  ⟨h.ahead, h.plain, h.pending, h.trailing, h.errors, by rw [h.depth], h.closers⟩

theorem enterBlock (h : p.At d ws) {closers : List Kind}
    (closing : ∀ k ∈ closers, k.isClosingKeyword = true) : (p.enterBlock closers).At d ws where
  ahead := h.ahead
  plain := h.plain
  pending := h.pending
  trailing := h.trailing
  errors := h.errors
  depth := h.depth
  closers k mem := by
    rcases List.mem_append.mp mem with mem | mem
    · exact h.closers k mem
    · exact closing k mem

theorem leaveBlock (h : p.At d ws) (mark : Nat) : (p.leaveBlock mark).At d ws where
  ahead := h.ahead
  plain := h.plain
  pending := h.pending
  trailing := h.trailing
  errors := h.errors
  depth := h.depth
  closers k mem := h.closers k (List.mem_of_mem_take mem)

theorem start (h : p.At d ws) (k : NodeKind) : (p.start k).Holds k [] d ws :=
  ⟨rfl, rfl, h⟩

theorem takeLeaf (h : p.At d (w :: ws)) : Found (.token none w) d ws p.takeLeaf := by
  obtain ⟨item, head, plain, bare⟩ := h.head
  have taken : p.takeLeaf =
      (.token none item.token, { p.advance item with pending := p.pending ++ item.comments }) := by
    unfold Parser.takeLeaf
    rw [head]
  have next := h.advance item
  rw [taken]
  refine ⟨?_, next.ahead, next.plain, ?_, next.trailing, next.errors, next.depth, next.closers⟩
  · rw [Tree.bare, bare]
  · show p.pending ++ item.comments = []
    rw [h.pending, plain, List.append_nil]

end Parser.At

/-! ## The moves of a frame -/

namespace Frame.Holds

variable {k : NodeKind} {cs : List Tree} {d : Nat} {w : Token} {ws rest : List Token} {f g : Frame}

theorem current (h : f.Holds k cs d ws) : f.current = firstKind ws := h.parser.kind

theorem bump (h : f.Holds k cs d (w :: ws)) (role : Option Role := none) :
    (f.bump role).Holds k (cs ++ [.token role w]) d ws := by
  obtain ⟨item, head, plain, bare⟩ := h.parser.head
  have next := h.parser.advance item
  rw [bump_eq head]
  refine ⟨h.kind, ?_, next.ahead, next.plain, rfl, next.trailing, next.errors, next.depth,
    next.closers⟩
  simp [h.parser.pending, plain, h.children, Tree.bare, bare]

theorem attach (h : f.Holds k cs d ws) (role : Option Role) (t : Tree) :
    (f.attach role t).Holds k (cs ++ [t.bare.withRole role]) d ws := by
  have at_ := h.parser
  refine ⟨h.kind, ?_, at_.ahead, at_.plain, rfl, at_.trailing, at_.errors, at_.depth, at_.closers⟩
  simp [Frame.attach, flush, at_.pending, h.children]

theorem child (h : f.Holds k cs d ws) (role : Option Role) {read : Parser → Tree × Parser}
    {t : Tree} (found : Found t d rest (read f.parser)) :
    (f.child role read).Holds k (cs ++ [t.withRole role]) d rest := by
  have next : Frame.Holds k cs d rest { f with parser := (read f.parser).2 } :=
    ⟨h.kind, h.children, found.parser⟩
  have attached := next.attach role (read f.parser).1
  rw [found.tree] at attached
  exact attached

/-- A tree that has been read already becomes a child. -/
theorem put (h : f.Holds k cs d ws) (role : Option Role) {r : Tree × Parser} {t : Tree}
    (found : Found t d rest r) :
    (f.child role fun _ => r).Holds k (cs ++ [t.withRole role]) d rest :=
  h.child role found

theorem finish (h : f.Holds k cs d ws) : Found (Abstract.build k cs) d ws f.finish where
  tree := by
    show (ofChildren f.kind _ f.children.toList).bare = _
    rw [bare_ofChildren, h.kind, h.children, Abstract.build]
  parser := h.parser

theorem demand (h : f.Holds k cs d (w :: ws)) (wanted : Kind) (here : w.kind = wanted)
    (role : Option Role) (c : Complaint) :
    (f.demand wanted role c).1.Holds k (cs ++ [.token role w]) d ws ∧
      (f.demand wanted role c).2 = true := by
  rcases f.demand_cases wanted role c with ⟨_, e⟩ | ⟨other, _⟩
  · rw [e]
    exact ⟨h.bump role, rfl⟩
  · exact absurd (h.current.trans here) other

theorem expect (h : f.Holds k cs d (w :: ws)) (wanted : Kind) (here : w.kind = wanted)
    (role : Option Role := none) :
    (f.expect wanted role).Holds k (cs ++ [.token role w]) d ws :=
  (h.demand wanted here role _).1

theorem expectName (h : f.Holds k cs d (w :: ws)) (here : w.kind = .identifier) (role : Role) :
    (f.expectName role).Holds k (cs ++ [.token (some role) w]) d ws :=
  (h.demand _ here _ _).1

theorem eat (h : f.Holds k cs d (w :: ws)) (kind : Kind) (here : w.kind = kind) :
    (f.eat kind).1.Holds k (cs ++ [.token none w]) d ws ∧ (f.eat kind).2 = true := by
  rcases f.eat_cases kind with ⟨_, e⟩ | ⟨other, _⟩
  · rw [e]
    exact ⟨h.bump, rfl⟩
  · exact absurd (h.current.trans here) other

theorem eat_of_ne (h : f.Holds k cs d ws) {kind : Kind} (other : firstKind ws ≠ kind) :
    f.eat kind = (f, false) := by
  rcases f.eat_cases kind with ⟨here, _⟩ | ⟨_, e⟩
  · exact absurd (h.current.symm.trans here) other
  · exact e

theorem close (h : f.Holds k cs d (w :: ws)) (closer : k.closer = some w.kind) :
    f.close.Holds k (cs ++ [.token (some .closing) w]) d ws := by
  have closes : f.kind.closer = some w.kind := by rw [h.kind, closer]
  rcases close_cases closes with ⟨_, e⟩ | ⟨other, _⟩
  · rw [e]
    exact h.bump _
  · exact absurd h.current other

theorem enter (h : f.Holds k cs d ws) {closers : List Kind}
    (closing : ∀ k ∈ closers, k.isClosingKeyword = true) :
    Frame.Holds k cs d ws { f with parser := f.parser.enterBlock closers } :=
  ⟨h.kind, h.children, h.parser.enterBlock closing⟩

theorem leave (h : f.Holds k cs d ws) (mark : Nat) :
    Frame.Holds k cs d ws { f with parser := f.parser.leaveBlock mark } :=
  ⟨h.kind, h.children, h.parser.leaveBlock mark⟩

/-! ## Loops -/

/-- A round that takes words and goes on. -/
theorem loop_next (h : f.Holds k cs d ws) {step : Frame → Frame × Bool} (goes : step f = (g, true))
    {k' : NodeKind} {cs' : List Tree} {d' : Nat} (next : g.Holds k' cs' d' rest)
    (shorter : rest.length < ws.length) : f.loop step = g.loop step := by
  unfold loop
  rw [Loop.run_eq]
  · simp [goes]
  · intro _
    rw [goes]
    show g.parser.remaining < f.parser.remaining
    rw [h.parser.remaining, next.parser.remaining]
    exact shorter

/-- A loop that reads parts with commas between them, where each part is read as it is meant. -/
theorem loop_listed {step : Frame → Frame × Bool} (ended : firstKind rest ≠ .comma) :
    ∀ {ts : List Tree} {t : Tree} {cs : List Tree} {f : Frame},
      (∀ u ∈ t :: ts, ∀ g cs ws, Frame.Holds k cs d (u.leaves ++ ws) g →
        firstKind ws = .comma ∨ ws = rest →
          ∃ next, Frame.Holds k (cs ++ [u]) d ws next ∧ step g = next.eat .comma) →
      f.Holds k cs d (leavesAll (Abstract.listed (t :: ts)) ++ rest) →
      (f.loop step).Holds k (cs ++ Abstract.listed (t :: ts)) d rest
  -- One round for each part. After the last one no comma is eaten, which ends the loop.
  | [], t, cs, f, each, h => by
      obtain ⟨last, holds, e⟩ :=
        each t List.mem_cons_self f cs rest (by simpa using h) (.inr rfl)
      rw [holds.eat_of_ne ended] at e
      rw [loop_of_stop (by rw [e]), e]
      exact holds
  | u :: us, t, cs, f, each, h => by
      have words : leavesAll (Abstract.listed (t :: u :: us)) ++ rest =
          t.leaves ++ .spelled .comma :: (leavesAll (Abstract.listed (u :: us)) ++ rest) := by
        simp
      rw [words] at h
      obtain ⟨first, holds, e⟩ := each t List.mem_cons_self f cs _ h (.inl rfl)
      obtain ⟨next, goes⟩ := holds.eat .comma rfl
      have more := loop_listed ended (fun v mem => each v (List.mem_cons_of_mem t mem)) next
      rw [h.loop_next (e.trans (Prod.ext rfl goes)) next
        (by simp only [List.length_cons, List.length_append]; omega)]
      simpa [Abstract.mark] using more

theorem commaSeparated {part : Frame → Frame} (ended : firstKind rest ≠ .comma) {t : Tree}
    {ts : List Tree}
    (each : ∀ u ∈ t :: ts, ∀ g cs ws, Frame.Holds k cs d (u.leaves ++ ws) g →
      firstKind ws = .comma ∨ ws = rest → (part g).Holds k (cs ++ [u]) d ws)
    (h : f.Holds k cs d (leavesAll (Abstract.listed (t :: ts)) ++ rest)) :
    (f.commaSeparated part).Holds k (cs ++ Abstract.listed (t :: ts)) d rest :=
  loop_listed ended
    (fun u mem g cs ws holds after => ⟨part g, each u mem g cs ws holds after, rfl⟩) h

/-- Tokens of kinds that pass are taken up to one of a kind that does not. -/
theorem bumpWhile (role : Option Role) (passes : Kind → Bool)
    (ended : passes (firstKind rest) = false) :
    ∀ {us : List Token} {cs : List Tree} {f : Frame}, (∀ u ∈ us, passes u.kind = true) →
      f.Holds k cs d (us ++ rest) →
      (f.bumpWhile role passes).Holds k (cs ++ us.map (Tree.token role)) d rest
  | [], cs, f, _, h => by
      rw [bumpWhile_of_not role passes (by rw [h.current]; exact ended)]
      simpa using h
  | u :: us, cs, f, pass, h => by
      have next := h.bump role
      have goes : (if passes f.current = true then (f.bump role, true) else (f, false)) =
          (f.bump role, true) := by
        rw [if_pos]
        rw [h.current]
        exact pass u List.mem_cons_self
      show (f.loop fun f =>
        if passes f.current then (f.bump role, true) else (f, false)).Holds _ _ _ _
      rw [h.loop_next goes next (by simp)]
      show ((f.bump role).bumpWhile role passes).Holds _ _ _ _
      have more :=
        bumpWhile role passes ended (fun v mem => pass v (List.mem_cons_of_mem u mem)) next
      simpa using more

end Frame.Holds

end JassSyntax
