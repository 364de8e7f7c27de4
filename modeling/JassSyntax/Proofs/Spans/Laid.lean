import JassSyntax.Proofs.Spans.Places
import JassSyntax.Proofs.Tree.Elements

/-!
# Trees in order

Trees are laid between two offsets if they follow one another there and everything in them lies
where its span says. Making a node of such trees keeps them so, because its span reaches from the
start of the first to the stop of the last.
-/

namespace JassSyntax

namespace Tree

/-- What is asked of the elements of a tree, each by itself. -/
structure InPlace (source : String) (t : Tree) : Prop where
  on : t.span.On source
  /-- Each child starts at or after the stop of those before it. -/
  ordered : t.children.Pairwise fun a b => a.span.stop.offset ≤ b.span.start.offset
  token : ∀ token, t.token? = some token → token.span.slice? source = some token.text
  tight : ∀ first last, t.children.head? = some first → t.children.getLast? = some last →
    t.span = ⟨first.span.start, last.span.stop⟩
  inner : t.nodeKind? ≠ some .program

/-- The tree and everything below it is in place. -/
def Lies (source : String) (t : Tree) : Prop := ∀ e ∈ t.elements, e.InPlace source

variable {source : String} {t : Tree}

theorem Lies.here (h : t.Lies source) : t.InPlace source := h t (self_mem_elements t)

theorem lies_of_children (here : t.InPlace source) (below : ∀ c ∈ t.children, c.Lies source) :
    t.Lies source := by
  intro e mem
  rcases mem_elements.mp mem with rfl | ⟨c, child, mem⟩
  · exact here
  · exact below c child e mem

theorem Lies.of_child {c : Tree} (h : t.Lies source) (child : c ∈ t.children) : c.Lies source :=
  fun e mem => h e (mem_elements_below child mem)

theorem Lies.withRole (h : t.Lies source) (role : Option Role) : (t.withRole role).Lies source := by
  refine lies_of_children ?_ fun c child => h.of_child (by rwa [children_withRole] at child)
  obtain ⟨on, ordered, token, tight, inner⟩ := h.here
  refine ⟨?_, ?_, ?_, ?_, ?_⟩
  · rwa [span_withRole]
  · rwa [children_withRole]
  · rwa [token?_withRole]
  · rwa [children_withRole, span_withRole]
  · rwa [nodeKind?_withRole]

theorem lies_of_childless (on : t.span.On source) (childless : t.children = [])
    (token : ∀ token, t.token? = some token → token.span.slice? source = some token.text)
    (inner : t.nodeKind? ≠ some .program) : t.Lies source := by
  refine lies_of_children ⟨on, ?_, token, ?_, inner⟩ ?_
  · rw [childless]
    exact .nil
  · intro first last head
    rw [childless] at head
    cases head
  · intro c child
    rw [childless] at child
    cases child

theorem lies_missing {p : Position} (placed : p.Placed source) (role : Option Role) (kind : Kind) :
    (missing role kind p).Lies source :=
  lies_of_childless (.empty placed) rfl (fun _ leaf => by cases leaf) fun node => by cases node

/-- The token stands in the text. -/
theorem lies_token {token : Token} (on : token.span.On source)
    (text : token.span.slice? source = some token.text) (role : Option Role) :
    (Tree.token role token).Lies source := by
  refine lies_of_childless on rfl ?_ fun node => by cases node
  rintro _ ⟨⟩
  exact text

end Tree

/-- The tokens as trees without a role. -/
def tokenTrees (ts : List Token) : List Tree := ts.map (Tree.token none)

/-! ## Trees between two offsets -/

/-- The trees follow one another between the offsets. -/
def Laid (source : String) : Nat → List Tree → Nat → Prop
  | a, [], b => a ≤ b
  | a, t :: ts, b =>
    a ≤ t.span.start.offset ∧ t.Lies source ∧ Laid source t.span.stop.offset ts b

namespace Laid

variable {source : String} {a b c : Nat} {t : Tree} {ts us : List Tree}

theorem nil (le : a ≤ b) : Laid source a [] b := le

theorem single (before : a ≤ t.span.start.offset) (lies : t.Lies source)
    (after : t.span.stop.offset ≤ b) : Laid source a [t] b :=
  ⟨before, lies, after⟩

theorem le (h : Laid source a ts b) : a ≤ b := by
  induction ts generalizing a with
  | nil => exact h
  | cons t ts ih =>
      obtain ⟨before, lies, rest⟩ := h
      exact Nat.le_trans before (Nat.le_trans lies.here.on.le (ih rest))

theorem append (first : Laid source a ts b) (second : Laid source b us c) :
    Laid source a (ts ++ us) c := by
  induction ts generalizing a with
  | nil =>
      cases us with
      | nil => exact Nat.le_trans first second
      | cons u us => exact ⟨Nat.le_trans first second.1, second.2⟩
  | cons t ts ih =>
      obtain ⟨before, lies, rest⟩ := first
      exact ⟨before, lies, ih rest⟩

theorem split (h : Laid source a (ts ++ us) c) : ∃ b, Laid source a ts b ∧ Laid source b us c := by
  induction ts generalizing a with
  | nil => exact ⟨a, Nat.le_refl a, h⟩
  | cons t ts ih =>
      obtain ⟨before, lies, rest⟩ := h
      obtain ⟨b, first, second⟩ := ih rest
      exact ⟨b, ⟨before, lies, first⟩, second⟩

theorem uncons (h : Laid source a (t :: us) c) :
    ∃ b, Laid source a [t] b ∧ Laid source b us c :=
  split h

theorem mono (h : Laid source a ts b) (le : b ≤ c) : Laid source a ts c := by
  have longer : Laid source a (ts ++ []) c := h.append (nil le)
  rwa [List.append_nil] at longer

theorem lies (h : Laid source a ts b) : ∀ t ∈ ts, t.Lies source := by
  induction ts generalizing a with
  | nil => exact fun t mem => by cases mem
  | cons t ts ih =>
      obtain ⟨_, lies, rest⟩ := h
      intro u mem
      rcases List.mem_cons.mp mem with rfl | mem
      · exact lies
      · exact ih rest u mem

theorem start_le (h : Laid source a ts b) : ∀ t ∈ ts, a ≤ t.span.start.offset := by
  intro t mem
  obtain ⟨before, after, rfl⟩ := List.append_of_mem mem
  obtain ⟨m, first, second⟩ := h.split
  exact Nat.le_trans first.le second.1

theorem le_stop (h : Laid source a ts b) : ∀ t ∈ ts, t.span.stop.offset ≤ b := by
  intro t mem
  obtain ⟨before, after, rfl⟩ := List.append_of_mem mem
  obtain ⟨m, first, second⟩ := h.split
  exact second.2.2.le

theorem pairwise (h : Laid source a ts b) :
    ts.Pairwise fun t u => t.span.stop.offset ≤ u.span.start.offset := by
  induction ts generalizing a with
  | nil => exact .nil
  | cons t ts ih =>
      obtain ⟨_, _, rest⟩ := h
      exact .cons (start_le rest) (ih rest)

theorem withRole (h : Laid source a [t] b) (role : Option Role) :
    Laid source a [t.withRole role] b := by
  obtain ⟨before, lies, after⟩ := h
  refine single ?_ (lies.withRole role) ?_
  · rwa [Tree.span_withRole]
  · rwa [Tree.span_withRole]

/-- The children of a node are covered from the first to the last. -/
theorem span_ofChildren (h : Laid source a ts b) (k : NodeKind) (p : Position) {first last : Tree}
    (head : ts.head? = some first) (tail : ts.getLast? = some last) :
    (Tree.ofChildren k p ts).span = ⟨first.span.start, last.span.stop⟩ := by
  have covered : (Tree.ofChildren k p ts).span = first.span.cover last.span := by
    simp [Tree.ofChildren, Tree.span, head, tail]
  have on : ∀ t ∈ ts, t.span.On source := fun t mem => (h.lies t mem).here.on
  rw [covered]
  obtain ⟨before, rfl⟩ := List.getLast?_eq_some_iff.mp tail
  cases before with
  | nil =>
      cases head
      exact Span.cover_of_le (on _ (by simp)) (on _ (by simp)) (Nat.le_refl _) (Nat.le_refl _)
  | cons t ts =>
      cases head
      have apart := (List.pairwise_cons.mp h.pairwise).1 last (by simp)
      have left := on first (by simp)
      have right := on last (by simp)
      exact Span.cover_of_le left right (Nat.le_trans left.le apart) (Nat.le_trans apart right.le)

/-- A node of trees that are laid is laid. Without children it lies where it is told to. -/
theorem ofChildren (h : Laid source a ts b) {k : NodeKind} {p : Position}
    (inner : k ≠ .program)
    (fallback : ts = [] → p.Placed source ∧ a ≤ p.offset ∧ p.offset ≤ b) :
    Laid source a [Tree.ofChildren k p ts] b := by
  have node : (Tree.ofChildren k p ts).nodeKind? ≠ some .program := by
    rintro ⟨⟩
    exact inner rfl
  have below : ∀ c ∈ (Tree.ofChildren k p ts).children, c.Lies source := h.lies
  cases head : ts.head? with
  | none =>
      obtain rfl := List.head?_eq_none_iff.mp head
      obtain ⟨placed, before, after⟩ := fallback rfl
      exact single before (Tree.lies_of_childless (.empty placed) rfl
        (fun _ leaf => by cases leaf) node) after
  | some first =>
      obtain ⟨last, tail⟩ : ∃ last, ts.getLast? = some last := by
        cases ts with
        | nil => cases head
        | cons => exact ⟨_, List.getLast?_cons⟩
      have span := h.span_ofChildren k p head tail
      have first_mem := List.mem_of_head? head
      have last_mem := List.mem_of_getLast? tail
      have start := (h.lies first first_mem).here.on
      have stop := (h.lies last last_mem).here.on
      have before := h.start_le first first_mem
      have after := h.le_stop last last_mem
      have forward : first.span.start.offset ≤ last.span.stop.offset := by
        obtain ⟨rest, rfl⟩ := List.head?_eq_some_iff.mp head
        rcases List.mem_cons.mp last_mem with rfl | mem
        · exact start.le
        · have apart := (List.pairwise_cons.mp h.pairwise).1 last mem
          exact Nat.le_trans start.le (Nat.le_trans apart stop.le)
      refine single ?_ (Tree.lies_of_children
        ⟨?_, h.pairwise, (fun _ leaf => by cases leaf), ?_, node⟩ below) ?_
      · rw [span]
        exact before
      · rw [span]
        exact ⟨start.start, stop.stop, forward⟩
      · intro first' last' head' tail'
        rw [Tree.children_ofChildren] at head' tail'
        rw [h.span_ofChildren k p head' tail']
      · rw [span]
        exact after

end Laid

end JassSyntax
