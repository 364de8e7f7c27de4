import JassSyntax.Index.Names
import JassSyntax.Parse
import JassSyntax.Proofs.Spans.Programs
import JassSyntax.Proofs.Tree.Nodes
import JassSyntax.Tree.Dump

/-!
# Cutting texts out of their source

Dumps, outlines and lists of names cut texts out of the source, and a span that reaches past its
end, or into the middle of a character, would stop them. Here they are written over any way of
cutting. One that succeeds on all spans of a tree succeeds on the whole tree, and gives what they
give. In the tree of a text, every span lies on the text.
-/

namespace JassSyntax

variable {m : Type → Type} [Monad m]

namespace Tree

/-! ## With slices that may fail -/

/-- One line of a dump. -/
def dumpLineM (slice : Span → m String) (depth : Nat) (t : Tree) : m String := do
  let text ← slice t.span
  let indent := String.ofList (List.replicate (2 * depth) ' ')
  let label := match t.role with
    | some r => r.label ++ ": "
    | none => ""
  let start := t.span.start
  return s!"{indent}{label}{t.dumpName} (line {start.line + 1}, column {start.column + 1}): "
    ++ onOneLine text ++ "\n"

/-- The dump of a tree. -/
def dumpM (slice : Span → m String) (t : Tree) : m String :=
  String.join <$> (leveled 0 (t.withRole none)).mapM fun (depth, t) => dumpLineM slice depth t

/-- What a node defines by itself. -/
def definitionsM (slice : Span → m String) (t : Tree) : m (List Definition) :=
  match t.nodeKind? with
  | some .functionDefinition =>
    match t.first? .name with
    | some name =>
      if name.isMissing then pure []
      else do return [.located .function (← slice name.span) name.span.start]
    | none => pure []
  | some .structDefinition => pure ((t.tokenIn? .name).toList.map (.ofToken .struct))
  | some .globalsBlock => pure [.located .globals "globals" t.span.start]
  | some .variableDeclaration => pure (t.declaredTokens.map (.ofToken .variable))
  | _ => pure []

/-- What a tree defines. -/
def outlineM (slice : Span → m String) (t : Tree) : m (List Definition) :=
  List.flatten <$> t.descendants.mapM (definitionsM slice)

/-- What a call calls. -/
def calleeM (slice : Span → m String) (call : Tree) : m (Option String) :=
  match call.first? .base with
  | some base => do
    let text ← slice base.span
    match call.tokenIn? .method with
    | some method => return some (text ++ ":" ++ method.text)
    | none => return some text
  | none => pure none

end Tree

namespace Names

/-- Adds the names of which a node is the definition or the use. -/
def addNodeM (slice : Span → m String) (names : Names) (t : Tree) : m Names :=
  match t.nodeKind? with
  | some .functionDefinition =>
    match t.first? .name with
    | some name => do
      return { names with functions := names.functions.insert (← slice name.span) }
    | none => pure names
  | some .structDefinition =>
    match t.tokenIn? .name with
    | some name => pure { names with structs := names.structs.insert name.text }
    | none => pure names
  | some .globalsBlock =>
    pure { names with globals := t.globalNames.foldl NameSet.insert names.globals }
  | some .variableDeclaration =>
    match t.tokenIn? .type with
    | some type => pure { names with types := names.types.insert type.text }
    | none => pure names
  | some .functionCall => do
    match ← t.calleeM slice with
    | some callee => return { names with calls := names.calls.insert callee }
    | none => return names
  | _ => pure names

/-- Adds the names in a tree. -/
def addM (slice : Span → m String) (names : Names) (t : Tree) : m Names :=
  t.descendants.foldlM (addNodeM slice) names

end Names

/-! ## The spans that are cut out -/

namespace Tree

mutual

theorem mem_leveled {d depth : Nat} {e : Tree} : ∀ {t : Tree}, (d, e) ∈ leveled depth t →
    e ∈ t.elements
  | .token _ _, mem | .missing _ _ _, mem => by
      cases List.mem_singleton.mp mem
      exact self_mem_elements _
  | .node _ _ _ cs, mem => by
      rw [leveled, List.mem_cons] at mem
      rw [elements, List.mem_cons]
      rcases mem with same | mem
      · cases same
        exact .inl rfl
      · exact .inr (mem_leveledAll mem)

theorem mem_leveledAll {d depth : Nat} {e : Tree} : ∀ {ts : List Tree},
    (d, e) ∈ leveledAll depth ts → e ∈ elementsAll ts
  | [], mem => by cases mem
  | t :: ts, mem => by
      rw [leveledAll, List.mem_append] at mem
      rw [elementsAll, List.mem_append]
      exact mem.imp mem_leveled mem_leveledAll

end

end Tree

/-- The way of cutting succeeds on all spans of the tree. -/
def Tree.Cuts (slice : Span → m String) (source : String) (t : Tree) : Prop :=
  ∀ e ∈ t.elements, slice e.span = pure (e.text source)

/-- Without checks every slice succeeds: this is how the library cuts. -/
theorem Tree.cuts_text (source : String) (t : Tree) :
    t.Cuts (m := Id) (fun span => span.text source) source :=
  fun _ _ => rfl

variable {slice : Span → m String} {source : String} {t : Tree}

namespace Tree

theorem Cuts.of_element {e : Tree} (h : t.Cuts slice source) (mem : e ∈ t.elements) :
    e.Cuts slice source :=
  fun _ below => h _ (mem_elements_trans below mem)

theorem Cuts.first {c : Tree} {role : Role} (h : t.Cuts slice source)
    (first : t.first? role = some c) : slice c.span = pure (c.text source) :=
  h c (mem_elements_of_child (mem_children_of_first? first))

theorem Cuts.withRole (h : t.Cuts slice source) (role : Option Role) :
    (t.withRole role).Cuts slice source := by
  intro e mem
  rcases mem_elements.mp mem with rfl | ⟨c, child, below⟩
  · rw [text, span_withRole]
    exact h t (self_mem_elements t)
  · rw [children_withRole] at child
    exact h e (mem_elements_below child below)

end Tree

variable [LawfulMonad m]

theorem mapM_eq_pure {α β : Type} {f : α → m β} {g : α → β} {xs : List α}
    (each : ∀ x ∈ xs, f x = pure (g x)) : xs.mapM f = pure (xs.map g) := by
  induction xs with
  | nil => simp
  | cons x xs ih =>
      rw [List.mapM_cons, each x List.mem_cons_self,
        ih fun y mem => each y (List.mem_cons_of_mem x mem)]
      simp

namespace Tree

theorem Cuts.dump (h : t.Cuts slice source) : t.dumpM slice = pure (t.dump source) := by
  have lines : ∀ line ∈ leveled 0 (t.withRole none),
      dumpLineM slice line.1 line.2 = pure (dumpLine source line.1 line.2) := by
    intro line mem
    rw [dumpLineM, h.withRole none line.2 (mem_leveled mem), pure_bind]
    rfl
  rw [dumpM, mapM_eq_pure lines, map_pure]
  rfl

theorem Cuts.definitions (h : t.Cuts slice source) :
    t.definitionsM slice = pure (t.definitions source) := by
  unfold definitionsM Tree.definitions
  rcases t.nodeKind? with _ | kind
  · rfl
  cases kind
  case functionDefinition =>
    cases first : t.first? .name with
    | none => rfl
    | some name =>
        dsimp only
        split
        · rfl
        · rw [h.first first, pure_bind]
  all_goals rfl

theorem Cuts.outline (h : t.Cuts slice source) : t.outlineM slice = pure (t.outline source) := by
  have each : ∀ u ∈ t.descendants, u.definitionsM slice = pure (u.definitions source) :=
    fun u mem => (h.of_element (mem_descendants.mp mem).1).definitions
  rw [outlineM, mapM_eq_pure each, map_pure]
  rfl

theorem Cuts.callee (h : t.Cuts slice source) : t.calleeM slice = pure (t.callee? source) := by
  unfold calleeM callee?
  cases first : t.first? .base with
  | none => rfl
  | some base =>
      simp only [h.first first, pure_bind, Option.map_some]
      cases t.tokenIn? .method <;> rfl

end Tree

theorem Tree.Cuts.addNode (h : t.Cuts slice source) (names : Names) :
    names.addNodeM slice t = pure (names.addNode source t) := by
  unfold Names.addNodeM Names.addNode
  rcases t.nodeKind? with _ | kind
  · rfl
  cases kind
  case functionDefinition =>
    cases first : t.first? .name with
    | none => rfl
    | some name =>
        dsimp only
        rw [h.first first, pure_bind]
  case structDefinition => cases t.tokenIn? .name <;> rfl
  case variableDeclaration => cases t.tokenIn? .type <;> rfl
  case functionCall =>
    dsimp only
    rw [h.callee, pure_bind]
    cases t.callee? source <;> rfl
  all_goals rfl

theorem Tree.Cuts.names (h : t.Cuts slice source) (names : Names) :
    names.addM slice t = pure (names.add t source) := by
  have fold : ∀ (us : List Tree) (names : Names), (∀ u ∈ us, u.Cuts slice source) →
      us.foldlM (Names.addNodeM slice) names = pure (us.foldl (Names.addNode source) names) := by
    intro us
    induction us with
    | nil => exact fun _ _ => rfl
    | cons u us ih =>
        intro names all
        rw [List.foldlM_cons, (all u List.mem_cons_self).addNode, pure_bind,
          ih _ fun v mem => all v (List.mem_cons_of_mem u mem)]
        rfl
  exact fold _ _ fun u mem => h.of_element (Tree.mem_descendants.mp mem).1

/-! ## Texts -/

/-- What is asked of the spans in the tree of a text. -/
structure Tree.Spanned (source : String) (tree : Tree) : Prop where
  /-- The whole tree spans the whole text. -/
  whole : tree.span.start.offset = 0 ∧ tree.span.stop.offset = source.utf8ByteSize
  /-- Spans run forward between characters of the text. -/
  on : ∀ e ∈ tree.elements, e.span.start.offset ≤ e.span.stop.offset ∧
    e.span.stop.offset ≤ source.utf8ByteSize ∧
    (⟨e.span.start.offset⟩ : String.Pos.Raw).IsValid source ∧
    (⟨e.span.stop.offset⟩ : String.Pos.Raw).IsValid source
  /-- Each child starts at or after the stop of those before it. -/
  ordered : ∀ e ∈ tree.elements,
    e.children.Pairwise fun a b => a.span.stop.offset ≤ b.span.start.offset
  /-- A node within the tree spans from its first child to its last. -/
  tight : ∀ c ∈ tree.children, ∀ e ∈ c.elements, e.isNode = true →
    ∃ first last, e.children.head? = some first ∧ e.children.getLast? = some last ∧
      e.span = ⟨first.span.start, last.span.stop⟩
  /-- A token has the text under its span. -/
  token : ∀ e ∈ tree.elements, ∀ t, e.token? = some t → e.text source = t.text
  /-- No text that is cut out reaches past the source or splits a character. -/
  slice : ∀ e ∈ tree.elements, e.span.slice? source = some (e.text source)
  dump : ∀ e ∈ tree.elements, e.dumpM (Span.slice? source) = some (e.dump source)
  outline : ∀ e ∈ tree.elements, e.outlineM (Span.slice? source) = some (e.outline source)
  names : ∀ e ∈ tree.elements, ∀ names : Names,
    names.addM (Span.slice? source) e = some (names.add e source)

namespace Program

variable {tokens : List Token}

/-- Where a text ends. -/
theorem placed_end (source : String) : (Position.origin.afterAll source.toList).Placed source :=
  ⟨source.toList, [], (List.append_nil _).symm, rfl⟩

theorem offset_end (source : String) :
    (Position.origin.afterAll source.toList).offset = source.utf8ByteSize := by
  rw [Position.offset_afterAll, String.utf8Len_toList]
  exact Nat.zero_add _

/-- A tree of tokens that are laid in a text has its spans in order there. -/
theorem spanned_parseWithin (limit : Nat)
    (ended : Scanner.Ended source tokens (Position.origin.afterAll source.toList)) :
    (parseWithin limit tokens).1.Spanned source := by
  obtain ⟨span, laid⟩ := laid_parseWithin limit ended
  have below : ∀ c ∈ (parseWithin limit tokens).1.children, ∀ e ∈ c.elements, e.InPlace source :=
    laid.lies
  have on : ∀ e ∈ (parseWithin limit tokens).1.elements, e.span.On source := by
    intro e mem
    rcases Tree.mem_elements.mp mem with rfl | ⟨c, child, mem⟩
    · rw [span]
      exact ⟨Position.placed_origin source, placed_end source, Nat.zero_le _⟩
    · exact (below c child e mem).on
  have cuts : (parseWithin limit tokens).1.Cuts (Span.slice? source) source :=
    fun e mem => (on e mem).slice?
  constructor
  case whole =>
    rw [span]
    exact ⟨rfl, offset_end source⟩
  case on =>
    intro e mem
    have fits := on e mem
    exact ⟨fits.le, fits.stop.offset_le, fits.start.isValid, fits.stop.isValid⟩
  case ordered =>
    intro e mem
    rcases Tree.mem_elements.mp mem with rfl | ⟨c, child, mem⟩
    · exact laid.pairwise
    · exact (below c child e mem).ordered
  case tight =>
    intro c child e mem node
    obtain ⟨k, kind⟩ := Option.isSome_iff_exists.mp node
    have inner : k ≠ .program := by
      rintro rfl
      exact (below c child e mem).inner kind
    have filled : e.children ≠ [] :=
      children_ne_nil limit tokens e (Tree.mem_elements_below child mem) k kind inner
    have head := List.head?_eq_some_head filled
    have tail := List.getLast?_eq_some_getLast filled
    exact ⟨_, _, head, tail, (below c child e mem).tight _ _ head tail⟩
  case token =>
    intro e mem t leaf
    have cut := cuts e mem
    rcases Tree.mem_elements.mp mem with rfl | ⟨c, child, mem⟩
    · cases leaf
    · have here := (below c child e mem).token t leaf
      have same : e.span = t.span := by
        cases e <;> cases leaf
        rfl
      rw [← same, cut] at here
      exact Option.some.inj here
  case slice => exact cuts
  case dump => exact fun e mem => (cuts.of_element mem).dump
  case outline => exact fun e mem => (cuts.of_element mem).outline
  case names => exact fun e mem => (cuts.of_element mem).names

end Program

/-- **Spans are in order, and what they cut out is there.** In the tree of every text, whatever is
wrong with it, children follow one another, nodes reach from their first child to their last, tokens
have the text under them, and no output reads outside the text. -/
theorem parse_spanned (source : String) : (parse source).tree.Spanned source :=
  Program.spanned_parseWithin Program.maxDepth (scan_ended source)

end JassSyntax
