import JassSyntax.Proofs.Scanning.Showing
import JassSyntax.Proofs.Shape.Names
import JassSyntax.Proofs.Spans.Reporting

/-!
# The order of outlines

An outline lists what every node defines, then what is defined below it. All that a tree defines
stands in its span, so what two children define is in order, and what a node defines by itself
stands in front of what is defined below it, but for one kind of node: a declaration lists all the
variables that it declares before the functions in the value of the first. So the outline of a text
is in the order of lines and columns exactly if no declaration does that.
-/

namespace JassSyntax

open JassSyntax.Tree

variable {source : String}

/-! ## Places -/

namespace Position

variable {p q r : Position}

/-- By line and column, the first position comes before the second. -/
def Precedes (p q : Position) : Prop := p.line < q.line ∨ p.line = q.line ∧ p.column < q.column

theorem Precedes.trans (first : p.Precedes q) (second : q.Precedes r) : p.Precedes r := by
  unfold Precedes at *
  omega

theorem precedes_after (p : Position) (c : Char) : p.Precedes (p.after c) := by
  unfold after
  split
  · exact .inl (Nat.lt_succ_self _)
  · exact .inr ⟨rfl, Nat.lt_succ_self _⟩

theorem precedes_afterAll (p : Position) {cs : List Char} (some : cs ≠ []) :
    p.Precedes (p.afterAll cs) := by
  induction cs generalizing p with
  | nil => exact absurd rfl some
  | cons c cs ih =>
      have next := precedes_after p c
      cases cs with
      | nil => exact next
      | cons d ds => exact next.trans (ih _ (List.cons_ne_nil d ds))

/-- Places of a text are in the order of lines and columns as well as of offsets. -/
theorem Placed.precedes (hp : p.Placed source) (hq : q.Placed source) (lt : p.offset < q.offset) :
    p.Precedes q := by
  obtain ⟨before, after, split, rfl⟩ := hp
  obtain ⟨before', after', split', rfl⟩ := hq
  rw [offset_afterAll, offset_afterAll] at lt
  obtain ⟨mid, rfl⟩ := exists_between (split.symm.trans split') (by omega)
  rw [afterAll_append]
  refine precedes_afterAll _ ?_
  rintro rfl
  rw [List.append_nil] at lt
  exact Nat.lt_irrefl _ lt

end Position

/-! ## Definitions and where they stand -/

namespace Definition

/-- The line of the first definition comes first, or its column on the same line, or both are at the
same place. -/
def InOrder (d e : Definition) : Prop := d.line < e.line ∨ d.line = e.line ∧ d.column ≤ e.column

instance (d e : Definition) : Decidable (d.InOrder e) := inferInstanceAs (Decidable (_ ∨ _))

/-- The definition is that of a name at the position. -/
def Stands (d : Definition) (p : Position) : Prop := d.line = p.line + 1 ∧ d.column = p.column + 1

theorem stands_located (kind : DefinitionKind) (name : String) (p : Position) :
    (located kind name p).Stands p := ⟨rfl, rfl⟩

/-- The definition stands at a place of the text in the span. -/
def Within (source : String) (s : Span) (d : Definition) : Prop :=
  ∃ p : Position, p.Placed source ∧ d.Stands p ∧ s.start.offset ≤ p.offset ∧
    p.offset ≤ s.stop.offset

variable {d e : Definition} {s t : Span}

theorem Stands.within {p : Position} (stands : d.Stands p) (placed : p.Placed source) :
    d.Within source (.empty p) :=
  ⟨p, placed, stands, Nat.le_refl _, Nat.le_refl _⟩

theorem Within.mono (h : d.Within source s) (inside : s.Inside t) : d.Within source t := by
  obtain ⟨p, placed, stands, start, stop⟩ := h
  exact ⟨p, placed, stands, Nat.le_trans inside.1 start, Nat.le_trans stop inside.2⟩

theorem Within.inOrder (first : d.Within source s) (second : e.Within source t)
    (le : s.stop.offset ≤ t.start.offset) : d.InOrder e := by
  obtain ⟨p, hp, ⟨line, column⟩, -, stop⟩ := first
  obtain ⟨q, hq, ⟨line', column'⟩, start, -⟩ := second
  unfold InOrder
  rcases Nat.lt_or_eq_of_le (Nat.le_trans stop (Nat.le_trans le start)) with lt | same
  · have before := hp.precedes hq lt
    unfold Position.Precedes at before
    omega
  · obtain rfl := hp.eq_of_offset hq same
    omega

theorem Within.not_inOrder (first : d.Within source s) (second : e.Within source t)
    (lt : s.stop.offset < t.start.offset) : ¬e.InOrder d := by
  obtain ⟨p, hp, ⟨line, column⟩, -, stop⟩ := first
  obtain ⟨q, hq, ⟨line', column'⟩, start, -⟩ := second
  have before := hp.precedes hq (Nat.lt_of_le_of_lt stop (Nat.lt_of_lt_of_le lt start))
  unfold Position.Precedes at before
  unfold InOrder
  omega

end Definition

/-! ## Outlines node by node -/

namespace Tree

variable {t c : Tree} {d : Definition} {p : Position}

theorem definitions_of_not_isNode (leaf : t.isNode = false) : t.definitions source = [] := by
  have none : t.nodeKind? = none := by simpa [isNode] using leaf
  rw [definitions, none]

theorem outline_eq (t : Tree) : t.outline source =
    t.definitions source ++ t.children.flatMap fun c => c.outline source := by
  have all (t : Tree) : t.outline source = t.elements.flatMap (definitions source) := by
    rw [outline, descendants_eq]
    induction t.elements with
    | nil => rfl
    | cons e es ih =>
        cases node : e.isNode with
        | true => rw [List.filter_cons_of_pos node, List.flatMap_cons, ih, List.flatMap_cons]
        | false =>
            rw [List.filter_cons_of_neg (by simp [node]), ih, List.flatMap_cons,
              definitions_of_not_isNode node, List.nil_append]
  rw [all, elements_eq, List.flatMap_cons, elementsAll_eq_flatMap, List.flatMap_assoc]
  simp only [all]

/-- What an element defines is defined in the tree, in the same order. -/
theorem outline_sublist {e : Tree} (mem : e ∈ t.elements) :
    (e.outline source).Sublist (t.outline source) := by
  induction t using children_induction with
  | step t ih =>
      rcases mem_elements.mp mem with rfl | ⟨c, child, below⟩
      · exact List.Sublist.refl _
      · obtain ⟨front, back, split⟩ := List.append_of_mem child
        rw [outline_eq t, split, List.flatMap_append, List.flatMap_cons]
        exact ((ih c child below).trans (List.sublist_append_left _ _)).trans
          ((List.sublist_append_right _ _).trans (List.sublist_append_right _ _))

/-- The node defines something whose name stands at the position. -/
inductive Defines (t : Tree) : Position → Prop
  | named {kind : NodeKind} {name : Tree} (node : t.nodeKind? = some kind)
      (named : kind = .functionDefinition ∨ kind = .structDefinition)
      (first : t.first? .name = some name) : Defines t name.span.start
  | globals (node : t.nodeKind? = some .globalsBlock) : Defines t t.span.start
  | declared {c : Tree} {x : Token} (node : t.nodeKind? = some .variableDeclaration)
      (child : c ∈ t.children) (role : c.role = some .declarator)
      (found : c.tokenIn? .name = some x) : Defines t x.span.start

theorem exists_first?_of_tokenIn? {r : Role} {x : Token} (found : t.tokenIn? r = some x) :
    ∃ role, t.first? r = some (.token role x) := by
  obtain ⟨c, first, leaf⟩ := Option.bind_eq_some_iff.mp found
  cases c with
  | token role y =>
      cases leaf
      exact ⟨role, first⟩
  | missing | node => cases leaf

theorem tokenIn?_of_first? {r : Role} {role : Option Role} {x : Token}
    (first : t.first? r = some (.token role x)) : t.tokenIn? r = some x :=
  Option.bind_eq_some_iff.mpr ⟨_, first, rfl⟩

theorem first?_of_tokenIn? {r : Role} {x : Token} (found : t.tokenIn? r = some x) :
    ∃ c, t.first? r = some c ∧ c.span = x.span := by
  obtain ⟨role, first⟩ := exists_first?_of_tokenIn? found
  exact ⟨_, first, rfl⟩

theorem mem_declaredTokens {x : Token} : x ∈ t.declaredTokens ↔
    ∃ c ∈ t.children, c.role = some .declarator ∧ c.tokenIn? .name = some x := by
  rw [declaredTokens, inRole, List.filter_filter, List.mem_filterMap]
  simp only [List.mem_filter, Bool.and_eq_true, beq_iff_eq, and_assoc]
  refine exists_congr fun c => and_congr_right fun _ => ?_
  constructor
  · rintro ⟨-, role, name⟩
    exact ⟨role, name⟩
  · rintro ⟨role, name⟩
    refine ⟨?_, role, name⟩
    obtain ⟨n, first, -⟩ := first?_of_tokenIn? name
    cases c with
    | token | missing => cases first
    | node => rfl

/-- The node defines something of the kind and called by the name, and where it says so is the tree
`n`. -/
inductive Lists (source : String) (t : Tree) : DefinitionKind → String → Tree → Prop
  | function {n : Tree} (node : t.nodeKind? = some .functionDefinition)
      (first : t.first? .name = some n) (there : n.isMissing = false) :
      Lists source t .function (n.text source) n
  | struct {role : Option Role} {x : Token} (node : t.nodeKind? = some .structDefinition)
      (first : t.first? .name = some (.token role x)) :
      Lists source t .struct x.text (.token role x)
  | globals (node : t.nodeKind? = some .globalsBlock) : Lists source t .globals "globals" t
  | declared {c : Tree} {role : Option Role} {x : Token}
      (node : t.nodeKind? = some .variableDeclaration) (child : c ∈ t.children)
      (declares : c.role = some .declarator) (first : c.first? .name = some (.token role x)) :
      Lists source t .variable x.text (.token role x)

theorem exists_lists (mem : d ∈ t.definitions source) :
    ∃ n, t.Lists source d.kind d.name n ∧ d.Stands n.span.start := by
  unfold definitions at mem
  split at mem
  · next node =>
    split at mem
    · next n first =>
      split at mem
      · cases mem
      · next there =>
        rw [List.mem_singleton.mp mem]
        exact ⟨n, .function node first (by simpa using there), Definition.stands_located _ _ _⟩
    · cases mem
  · next node =>
    obtain ⟨x, found, rfl⟩ := List.mem_map.mp mem
    obtain ⟨role, first⟩ := exists_first?_of_tokenIn? (Option.mem_toList.mp found)
    exact ⟨_, .struct node first, Definition.stands_located _ _ _⟩
  · next node =>
    rw [List.mem_singleton.mp mem]
    exact ⟨_, .globals node, Definition.stands_located _ _ _⟩
  · next node =>
    obtain ⟨x, declared, rfl⟩ := List.mem_map.mp mem
    obtain ⟨c, child, role, found⟩ := mem_declaredTokens.mp declared
    obtain ⟨_, first⟩ := exists_first?_of_tokenIn? found
    exact ⟨_, .declared node child role first, Definition.stands_located _ _ _⟩
  · cases mem

theorem Lists.defines {kind : DefinitionKind} {name : String} {n : Tree}
    (lists : t.Lists source kind name n) : t.Defines n.span.start := by
  cases lists with
  | function node first => exact .named node (.inl rfl) first
  | struct node first => exact .named node (.inr rfl) first
  | globals node => exact .globals node
  | declared node child declares first =>
      exact .declared node child declares (tokenIn?_of_first? first)

theorem exists_defines (mem : d ∈ t.definitions source) : ∃ p, t.Defines p ∧ d.Stands p := by
  obtain ⟨n, lists, stands⟩ := exists_lists mem
  exact ⟨_, lists.defines, stands⟩

/-! ## Spans -/

/-- The definition of the first child in a role stands in the span of the node. -/
theorem Lies.stands_within {r : Role} {n : Tree} (lies : t.Lies source)
    (first : t.first? r = some n) (stands : d.Stands n.span.start) : d.Within source t.span := by
  have child := mem_children_of_first? first
  have on := (lies.of_child child).here.on
  have start : (Span.empty n.span.start).Inside n.span := ⟨Nat.le_refl _, on.le⟩
  exact (stands.within on.start).mono (start.trans (lies.child_inside child))

theorem Lies.ofToken_within {r : Role} {x : Token} (lies : t.Lies source)
    (found : t.tokenIn? r = some x) (kind : DefinitionKind) :
    (Definition.ofToken kind x).Within source t.span := by
  obtain ⟨n, first, span⟩ := first?_of_tokenIn? found
  exact lies.stands_within first (span ▸ Definition.stands_located _ _ _)

/-- What a node defines by itself stands in its span. -/
theorem Lies.definitions_within (lies : t.Lies source) (mem : d ∈ t.definitions source) :
    d.Within source t.span := by
  obtain ⟨p, defines, stands⟩ := exists_defines mem
  cases defines with
  | named _ _ first => exact lies.stands_within first stands
  | globals => exact (stands.within lies.here.on.start).mono ⟨Nat.le_refl _, lies.here.on.le⟩
  | declared _ child _ found =>
      obtain ⟨n, first, span⟩ := first?_of_tokenIn? found
      exact ((lies.of_child child).stands_within first (span ▸ stands)).mono
        (lies.child_inside child)

/-- What a tree defines stands in its span. -/
theorem Lies.outline_within (lies : t.Lies source) :
    ∀ d ∈ t.outline source, d.Within source t.span := by
  induction t using children_induction with
  | step t ih =>
      intro d mem
      rw [outline_eq, List.mem_append, List.mem_flatMap] at mem
      rcases mem with mem | ⟨c, child, mem⟩
      · exact lies.definitions_within mem
      · exact (ih c child (lies.of_child child) d mem).mono (lies.child_inside child)

/-! ## What stands before what -/

theorem Lies.definitions_inOrder (lies : t.Lies source) :
    (t.definitions source).Pairwise Definition.InOrder := by
  unfold definitions
  split
  · split
    · split
      · exact .nil
      · exact List.pairwise_singleton _ _
    · exact .nil
  · cases t.tokenIn? .name with
    | none => exact .nil
    | some x => exact List.pairwise_singleton _ _
  · exact List.pairwise_singleton _ _
  · rw [List.pairwise_map, declaredTokens, List.pairwise_filterMap]
    refine List.Pairwise.imp_of_mem ?_ ((lies.here.ordered.filter _).filter _)
    intro c d first second apart x found y found'
    have child (c : Tree) (mem : c ∈ (t.inRole .declarator).filter isNode) : c ∈ t.children :=
      (List.mem_filter.mp (List.mem_filter.mp mem).1).1
    exact ((lies.of_child (child c first)).ofToken_within found _).inOrder
      ((lies.of_child (child d second)).ofToken_within found' _) apart
  · exact .nil

/-- Trees that follow one another have their outlines one after the other. -/
theorem flatMap_inOrder {ts : List Tree}
    (ordered : ts.Pairwise fun a b => a.span.stop.offset ≤ b.span.start.offset)
    (lies : ∀ c ∈ ts, c.Lies source)
    (each : ∀ c ∈ ts, (c.outline source).Pairwise Definition.InOrder) :
    (ts.flatMap fun c => c.outline source).Pairwise Definition.InOrder := by
  rw [List.pairwise_flatMap]
  refine ⟨each, ordered.imp_of_mem fun first second apart d mem e mem' => ?_⟩
  exact ((lies _ first).outline_within d mem).inOrder ((lies _ second).outline_within e mem') apart

/-- What is known of a tree that is read from a text. -/
structure Surveyed (source : String) (t : Tree) : Prop where
  lies : t.Lies source
  words : t.MuteWords
  remarked : t.Remarked
  built : ∀ e ∈ t.elements, e.WellBuilt .full ∨ e.Comment

/-- The declaration lists a variable before what is defined in the value of an earlier one. -/
def Overtakes (source : String) (t : Tree) : Prop :=
  t.nodeKind? = some .variableDeclaration ∧
    ∃ front c mid d back, t.children = front ++ c :: (mid ++ d :: back) ∧ c.outline source ≠ [] ∧
      d.role = some .declarator ∧ (d.tokenIn? .name).isSome = true

namespace Surveyed

variable {e : Definition}

theorem of_element {e : Tree} (h : t.Surveyed source) (mem : e ∈ t.elements) :
    e.Surveyed source where
  lies _ below := h.lies _ (mem_elements_trans below mem)
  words := h.words.of_element mem
  remarked := h.remarked.of_element mem
  built _ below := h.built _ (mem_elements_trans below mem)

theorem of_child (h : t.Surveyed source) (child : c ∈ t.children) : c.Surveyed source :=
  h.of_element (mem_elements_of_child child)

/-- Every node but a comment is built by its production. -/
theorem derived (h : t.Surveyed source) {kind : NodeKind} (node : t.nodeKind? = some kind)
    (plain : kind ≠ .blockComment) : t.parts ∈ production .full kind := by
  rcases h.built t (self_mem_elements t) with built | comment
  · exact built.derived kind node
  · cases comment with
    | token => cases node
    | block =>
        cases node
        exact absurd rfl plain

/-- Where something is defined is no comment, nor what can only be a name or a mark. -/
theorem of_outline (h : t.Surveyed source) (child : c ∈ t.children)
    (defined : c.outline source ≠ []) : c.isComment = false ∧
      ∀ kind, t.nodeKind? = some kind → ¬kind.HoldsWords c.role := by
  constructor
  · refine Bool.eq_false_iff.mpr fun comment => defined ?_
    have whole := h.remarked c (mem_elements_of_child child) comment
    exact whole.mute.outline source
  · intro kind node words
    exact defined ((h.words t (self_mem_elements t) kind node c child words).outline source)

/-- Nothing is defined in front of the name of a construct. -/
theorem name_le (h : t.Surveyed source) {kind : NodeKind} {n : Tree}
    (node : t.nodeKind? = some kind)
    (named : kind ∈ [.functionDefinition, .structDefinition, .declarator])
    (first : t.first? .name = some n) (child : c ∈ t.children)
    (defined : c.outline source ≠ []) : n.span.start.offset ≤ c.span.start.offset := by
  have plain : kind ≠ .blockComment := by
    rintro rfl
    simp at named
  obtain ⟨front, back, split, before⟩ := exists_split_of_name named (h.derived node plain) first
  obtain ⟨significant, speaks⟩ := h.of_outline child defined
  have ordered := h.lies.here.ordered
  rw [split] at child ordered
  rcases List.mem_append.mp child with early | late
  · have words : kind.HoldsWords c.role := by
      rw [before c early significant]
      refine .inr ⟨by simp [NodeKind.Outside], ?_⟩
      simp only [List.mem_cons, List.not_mem_nil, or_false] at named
      rcases named with rfl | rfl | rfl <;> rfl
    exact absurd words (speaks kind node)
  rcases List.mem_cons.mp late with rfl | late
  · exact Nat.le_refl _
  · have apart := (List.pairwise_cons.mp (List.pairwise_append.mp ordered).2.1).1 c late
    exact Nat.le_trans (h.lies.of_child (mem_children_of_first? first)).here.on.le apart

/-- What plays the role of a declarator, and has a name, is one. -/
theorem declarator (h : t.Surveyed source) (node : t.nodeKind? = some .variableDeclaration)
    (child : c ∈ t.children) (role : c.role = some .declarator) {x : Token}
    (found : c.tokenIn? .name = some x) :
    c.isComment = false ∧ c.nodeKind? = some .declarator := by
  have plain : c.isComment = false := by
    refine Bool.eq_false_iff.mpr fun comment => ?_
    cases h.remarked c (mem_elements_of_child child) comment with
    | token => cases found
    | block => cases role
  have part : c ∈ t.parts := List.mem_filter.mpr ⟨child, by simp [plain]⟩
  exact ⟨plain, Production.inRole_declarator _ (h.derived node NodeKind.noConfusion) c part role⟩

/-- What a node defines by itself stands in front of what is defined below it, unless it is listed
too early. -/
theorem definitions_first (h : t.Surveyed source) (tame : ¬t.Overtakes source)
    (own : d ∈ t.definitions source) (child : c ∈ t.children) (below : e ∈ c.outline source) :
    d.InOrder e := by
  obtain ⟨p, defines, stands⟩ := exists_defines own
  have within := (h.of_child child).lies.outline_within e below
  have defined := List.ne_nil_of_mem below
  cases defines with
  | @named kind n node named first =>
      have le := h.name_le node (by rcases named with rfl | rfl <;> simp) first child defined
      have on := (h.lies.of_child (mem_children_of_first? first)).here.on
      exact (stands.within on.start).inOrder within le
  | globals =>
      exact (stands.within h.lies.here.on.start).inOrder within (h.lies.child_inside child).1
  | @declared v x node declares role found =>
      obtain ⟨front, back, split⟩ := List.append_of_mem declares
      obtain ⟨n, first, span⟩ := first?_of_tokenIn? found
      have ordered := h.lies.here.ordered
      rw [split] at ordered
      -- The three cases are a value in front of the variable, its own value, and one behind it.
      rcases List.mem_append.mp (split ▸ child) with early | late
      · obtain ⟨front', mid, rfl⟩ := List.append_of_mem early
        exact absurd ⟨node, front', c, mid, v, back, by simp [split], defined, role,
          by simp [found]⟩ tame
      rcases List.mem_cons.mp late with rfl | late
      · have kind := (h.declarator node child role found).2
        rw [outline_eq, definitions, kind, List.nil_append] at below
        obtain ⟨b, inner, below⟩ := List.mem_flatMap.mp below
        have le := (h.of_child child).name_le kind (by simp) first inner (List.ne_nil_of_mem below)
        have lies := (h.of_child child).lies
        have on := (lies.of_child (mem_children_of_first? first)).here.on
        rw [← span] at stands
        exact (stands.within on.start).inOrder ((lies.of_child inner).outline_within e below) le
      · have apart := (List.pairwise_cons.mp (List.pairwise_append.mp ordered).2.1).1 c late
        exact ((h.lies.of_child declares).stands_within first (span ▸ stands)).inOrder within apart

/-- Where no declaration lists a variable too early, the outline is in order. -/
theorem outline_inOrder (h : t.Surveyed source) (tame : ∀ e ∈ t.elements, ¬e.Overtakes source) :
    (t.outline source).Pairwise Definition.InOrder := by
  induction t using children_induction with
  | step t ih =>
      rw [outline_eq, List.pairwise_append]
      refine ⟨h.lies.definitions_inOrder, ?_, fun d own e below => ?_⟩
      · refine flatMap_inOrder h.lies.here.ordered (fun c child => (h.of_child child).lies) ?_
        exact fun c child => ih c child (h.of_child child) fun e mem =>
          tame e (mem_elements_below child mem)
      · obtain ⟨c, child, below⟩ := List.mem_flatMap.mp below
        exact h.definitions_first (tame t (self_mem_elements t)) own child below

/-- A declaration that lists a variable too early is out of order itself. -/
theorem not_inOrder (h : t.Surveyed source)
    (wide : ∀ x ∈ t.leaves, x.kind = .comma → x.span.isEmpty = false)
    (overtakes : t.Overtakes source) : ¬(t.outline source).Pairwise Definition.InOrder := by
  obtain ⟨node, front, c, mid, d, back, split, defined, role, name⟩ := overtakes
  obtain ⟨x, found⟩ := Option.isSome_iff_exists.mp name
  have first : c ∈ t.children := by simp [split]
  have second : d ∈ t.children := by simp [split]
  have word := h.derived node NodeKind.noConfusion
  obtain ⟨plain, speaks⟩ := h.of_outline first defined
  have value : c.role = some .declarator := by
    by_contra other
    have part : c ∈ t.parts := List.mem_filter.mpr ⟨first, by simp [plain]⟩
    have apart := (Production.apart_declaration _ word c part).role
    simp only [List.mem_cons, List.not_mem_nil, or_false, not_or] at apart
    exact speaks _ node (.inr ⟨⟨apart.1, apart.2, fun _ => rfl⟩, if_neg other⟩)
  obtain ⟨plain', -⟩ := h.declarator node second role found
  obtain ⟨z, between, y, leaf, comma⟩ := exists_comma word split value plain role plain'
  -- The comma between the two keeps them apart, so that no two entries can be at one place.
  have apart : c.span.stop.offset < d.span.start.offset := by
    have ordered := h.lies.here.ordered
    rw [split, List.pairwise_append, List.pairwise_cons, List.pairwise_append] at ordered
    obtain ⟨-, ⟨behind, -, -, further⟩, -⟩ := ordered
    have before := behind z (by simp [between])
    have after := further z between d (by simp)
    have child : z ∈ t.children := by simp [split, between]
    have on := (h.lies.of_child child).here.on.le
    have filled : z.span.isEmpty = false := by
      cases z with
      | token =>
          cases leaf
          refine wide y (leaves_subset_of_mem_elements
            (mem_elements_of_child child) ?_) comma
          exact List.mem_singleton.mpr rfl
      | missing | node => cases leaf
    have differ : z.span.start.offset ≠ z.span.stop.offset := by
      simpa [Span.isEmpty] using filled
    omega
  intro sorted
  rw [outline_eq, List.pairwise_append] at sorted
  obtain ⟨e, below⟩ := List.exists_mem_of_ne_nil _ defined
  have own : .ofToken .variable x ∈ t.definitions source := by
    rw [definitions, node]
    exact List.mem_map_of_mem (mem_declaredTokens.mpr ⟨d, second, role, found⟩)
  have inOrder := sorted.2.2 _ own e (List.mem_flatMap.mpr ⟨c, first, below⟩)
  exact ((h.of_child first).lies.outline_within e below).not_inOrder
    ((h.of_child second).lies.ofToken_within found _) apart inOrder

end Surveyed

end Tree

/-! ## Texts -/

namespace Program

variable {tokens : List Token} {stop : Position}

/-- What is known of the statements of a program. -/
theorem surveyed_parseWithin (limit : Nat) (ended : Scanner.Ended source tokens stop) :
    ∀ c ∈ (parseWithin limit tokens).1.children, c.Surveyed source := by
  intro c child
  have lawful := parseWithin_lawful (m := .full) limit tokens trivial
  have remarked := remarked_parseWithin limit tokens
  exact ⟨(laid_parseWithin limit ended).2.lies c child,
    (parseWithin_muteWords limit tokens).of_child child, remarked.of_child child,
    fun e mem => lawful.elements remarked e (mem_elements_below child mem)⟩

theorem outline_parseWithin (limit : Nat) (tokens : List Token) :
    (parseWithin limit tokens).1.outline source =
      (parseWithin limit tokens).1.children.flatMap fun c => c.outline source := by
  rw [outline_eq]
  rfl

end Program

/-- The commas of a text have a width. -/
theorem scan_commas (source : String) :
    ∀ t ∈ (scan source).1, t.kind = .comma → t.span.isEmpty = false := by
  obtain ⟨last, steps, -⟩ := scan_steps source
  intro t mem comma
  exact steps.isEmpty_of_outside t mem (by rw [comma]; rfl) (by rw [comma]; exact Kind.noConfusion)

/-- **The order of an outline.** The outline of a text is in the order of lines and columns exactly
if no declaration of the text declares a variable behind a value in which something is defined. -/
theorem parse_outline (source : String) :
    ((parse source).tree.outline source).Pairwise Definition.InOrder ↔
      ∀ e ∈ (parse source).tree.elements, ¬e.Overtakes source := by
  have ended := scan_ended source
  have surveyed := Program.surveyed_parseWithin Program.maxDepth ended
  have laid := (Program.laid_parseWithin Program.maxDepth ended).2
  constructor
  · intro sorted e mem overtakes
    rcases mem_elements.mp mem with rfl | ⟨c, child, below⟩
    · cases overtakes.1
    refine ((surveyed c child).of_element below).not_inOrder (fun x leaf => ?_) overtakes
      (sorted.sublist (outline_sublist mem))
    have taken := leaves_subset_of_mem_elements mem leaf
    rw [show (parse source).tree.leaves = _ from Program.leaves_parse (scan source).1] at taken
    exact scan_commas source x ((List.takeWhile_sublist _).subset taken)
  · intro tame
    rw [show (parse source).tree.outline source = _ from Program.outline_parseWithin _ _]
    refine flatMap_inOrder laid.pairwise (fun c child => (surveyed c child).lies) ?_
    exact fun c child => (surveyed c child).outline_inOrder fun e mem =>
      tame e (mem_elements_below child mem)

/-- The second variable is listed before what is defined in the value of the first. -/
example :
    let source := "local a = function() local x end, b"
    let outline := (parse source).tree.outline source
    outline.map (fun d => (d.name, d.line, d.column)) = [("a", 1, 7), ("b", 1, 35), ("x", 1, 28)] ∧
      ¬outline.Pairwise Definition.InOrder := by decide +kernel

end JassSyntax
