import JassSyntax.Index.Names
import JassSyntax.Parse
import JassSyntax.Proofs.Layout.Programs
import JassSyntax.Proofs.Tree.Nodes
import JassSyntax.Proofs.Views.Comments

/-!
# Names and layout

Two texts with the same tokens, comments aside, are read to trees that look the same when neither
comments nor places are seen. The names of structs, globals and types are the texts of tokens, so
they are the same. The name of a function and what a call calls are cut out of the text from their
first token or comment to their last token, together with all that stands between; of these only the
tokens are the same. They are spelled alike, and they are the same names where nothing but their
tokens has been cut out.
-/

namespace JassSyntax

/-! ## Sets of names -/

theorem NameSet.ext {s t : NameSet} (same : ∀ x, x ∈ s ↔ x ∈ t) : s = t := by
  obtain ⟨xs, xsRise⟩ := s
  obtain ⟨ys, ysRise⟩ := t
  have perm : xs.Perm ys := (List.perm_ext_iff_of_nodup (xsRise.imp String.ne_of_lt)
    (ysRise.imp String.ne_of_lt)).mpr same
  have equal : xs = ys := perm.eq_of_pairwise (fun _ _ _ _ less more =>
    absurd more (String.lt_asymm less)) xsRise ysRise
  cases equal
  rfl

namespace Names

/-- The sets of names, whatever they stand for. -/
def parts : List (Names → NameSet) := [functions, structs, globals, types, calls]

variable {source : String} {part : Names → NameSet} {x : String}

theorem mem_foldl_insert {names : List String} {s : NameSet} :
    x ∈ names.foldl NameSet.insert s ↔ x ∈ s ∨ x ∈ names := by
  induction names generalizing s with
  | nil => simp
  | cons name names ih =>
      rw [List.foldl_cons, ih, NameSet.mem_insert, List.mem_cons]
      constructor
      · rintro ((new | old) | later)
        · exact .inr (.inl new)
        · exact .inl old
        · exact .inr (.inr later)
      · rintro (old | new | later)
        · exact .inl (.inr old)
        · exact .inl (.inl new)
        · exact .inr later

theorem not_mem_none (mem : part ∈ parts) : x ∉ part {} := by
  simp only [parts, List.mem_cons, List.not_mem_nil, or_false] at mem
  rcases mem with rfl | rfl | rfl | rfl | rfl <;> exact NameSet.not_mem_empty x

/-- A node adds the names that it would be the only one to give. -/
theorem mem_addNode (mem : part ∈ parts) (names : Names) (t : Tree) :
    x ∈ part (addNode source names t) ↔ x ∈ part names ∨ x ∈ part (addNode source {} t) := by
  have none := NameSet.not_mem_empty x
  simp only [parts, List.mem_cons, List.not_mem_nil, or_false] at mem
  unfold addNode
  rcases mem with rfl | rfl | rfl | rfl | rfl <;> split <;> try split
  all_goals simp [mem_foldl_insert, none, or_comm]

theorem mem_foldl_addNode (mem : part ∈ parts) (names : Names) (ts : List Tree) :
    x ∈ part (ts.foldl (addNode source) names) ↔
      x ∈ part names ∨ ∃ t ∈ ts, x ∈ part (addNode source {} t) := by
  induction ts generalizing names with
  | nil => simp
  | cons t ts ih =>
      rw [List.foldl_cons, ih, mem_addNode mem, or_assoc]
      simp only [List.mem_cons, exists_eq_or_imp]

end Names

/-! ## Nodes in a view -/

theorem Items.plain_append (ts us : List Token) : plain (ts ++ us) = plain ts ++ plain us :=
  List.filter_append ..

namespace Tree

/-- The nodes that are no comments. -/
def nodes (t : Tree) : List Tree := t.elements.filter fun e => e.isNode && !e.isComment

/-- The names of functions. -/
def functionNames (t : Tree) : List Tree :=
  (t.nodes.filter (·.nodeKind? == some .functionDefinition)).filterMap (·.first? .name)

/-- What is called: the base of each call, with the method's name if it calls a method. -/
def callees (t : Tree) : List (Tree × Option String) :=
  (t.nodes.filter (·.nodeKind? == some .functionCall)).filterMap fun call =>
    (call.first? .base).map fun base => (base, (call.tokenIn? .method).map Token.text)

/-- The tokens without the layout between them. -/
def spelling (t : Tree) : String := String.join ((Items.plain t.leaves).map Token.text)

theorem Comment.plain_leaves {t : Tree} (h : t.Comment) : Items.plain t.leaves = [] := by
  rw [Items.plain, List.filter_eq_nil_iff]
  intro u leaf
  rw [h.leaves_trivia u leaf]
  decide

end Tree

namespace View

open JassSyntax.Tree

variable (v : View)

/-- Neither comments nor places are seen. -/
def bare : View := ⟨false, fun _ => .origin⟩

mutual

/-- Without comments and places no more is seen of what another view shows. -/
theorem bare_tree : ∀ t : Tree, bare.tree (v.tree t) = bare.tree t
  | .token .. => by rw [tree, tree, tree]; rfl
  | .missing .. => by rw [tree, tree, tree]; rfl
  | .node r k s cs => by rw [tree, tree, tree, bare_trees cs]

theorem bare_trees : ∀ ts : List Tree, bare.trees (v.trees ts) = bare.trees ts
  | [] => by rw [trees_nil]
  | t :: ts => by
      rw [trees_cons v, trees_cons bare]
      by_cases passed : v.passesOver t = true
      · have both : bare.passesOver t = true := by
          simp [passesOver, bare, v.passesOver_comment passed, v.passesOver_role passed]
        rw [if_pos passed, if_pos both, bare_trees ts]
      · rw [if_neg passed, trees_cons, bare_tree t, bare_trees ts]
        simp [passesOver]

end

/-- What is passed over is a comment, and so are all of its elements. -/
theorem filter_elements_tree {choice : Tree → Bool} (same : ∀ t, choice (v.tree t) = choice t)
    (other : ∀ t : Tree, t.Comment → choice t = false) (t : Tree) (remarked : t.Remarked) :
    (v.tree t).elements.filter choice = (t.elements.filter choice).map v.tree := by
  induction t using children_induction with
  | step t ih =>
      have below : ∀ ts : List Tree, (∀ c ∈ ts, c ∈ t.children) →
          (elementsAll (v.trees ts)).filter choice =
            ((elementsAll ts).filter choice).map v.tree := by
        intro ts children
        induction ts with
        | nil => rw [trees_nil]; rfl
        | cons c ts rest =>
            have child := children c List.mem_cons_self
            have behind := rest fun d mem => children d (List.mem_cons_of_mem c mem)
            rw [trees_cons, elementsAll, List.filter_append, List.map_append, ← behind]
            split
            · next passed =>
              have whole := (remarked.of_child child) c (self_mem_elements c)
                (v.passesOver_comment passed)
              have none : c.elements.filter choice = [] := by
                rw [List.filter_eq_nil_iff]
                intro e mem
                rw [other e (whole.elements e mem)]
                decide
              rw [none, List.map_nil, List.nil_append]
            · rw [elementsAll, List.filter_append, ih c child (remarked.of_child child)]
      rw [elements_eq, elements_eq t, List.filter_cons, List.filter_cons, same, children_tree,
        below t.children fun _ => id]
      split <;> rfl

theorem nodes_tree {t : Tree} (remarked : t.Remarked) : (v.tree t).nodes = t.nodes.map v.tree := by
  refine v.filter_elements_tree (fun t => ?_) (fun t comment => ?_) t remarked
  · rw [isNode_tree, isComment_tree]
  · rw [comment.isComment, Bool.not_true, Bool.and_false]

mutual

theorem plain_leaves_tree : ∀ t : Tree, t.Remarked →
    Items.plain (v.tree t).leaves = (Items.plain t.leaves).map v.token
  | .token r t, _ => by
      rw [tree, leaves, leaves, Items.plain, Items.plain, List.filter_singleton,
        List.filter_singleton]
      show (bif !t.isTrivia then _ else _) = _
      cases t.isTrivia <;> rfl
  | .missing .., _ => by rw [tree]; rfl
  | .node r k s cs, remarked => by
      rw [tree]
      exact plain_leaves_trees cs fun c child => remarked.of_child child

theorem plain_leaves_trees : ∀ ts : List Tree, (∀ t ∈ ts, t.Remarked) →
    Items.plain (leavesAll (v.trees ts)) = (Items.plain (leavesAll ts)).map v.token
  | [], _ => by rw [trees_nil]; rfl
  | t :: ts, remarked => by
      have here := plain_leaves_tree t (remarked t List.mem_cons_self)
      have rest := plain_leaves_trees ts fun u mem => remarked u (List.mem_cons_of_mem t mem)
      rw [trees_cons, leavesAll_cons, Items.plain_append, List.map_append, ← rest]
      split
      · next passed =>
        have whole := remarked t List.mem_cons_self t (self_mem_elements t)
          (v.passesOver_comment passed)
        rw [whole.plain_leaves]
        rfl
      · rw [leavesAll_cons, Items.plain_append, here]

end

theorem spelling_tree {t : Tree} (remarked : t.Remarked) : (v.tree t).spelling = t.spelling := by
  rw [spelling, v.plain_leaves_tree t remarked, List.map_map]
  rfl

theorem tokenIn?_tree (t : Tree) (r : Role) :
    (v.tree t).tokenIn? r = (t.tokenIn? r).map v.token := by
  rw [tokenIn?, first?_tree, tokenIn?]
  cases t.first? r with
  | none => rfl
  | some c => cases c <;> simp [tree, token?]

theorem node?_tree (t : Tree) (r : Role) : (v.tree t).node? r = (t.node? r).map v.tree := by
  rw [node?, first?_tree, node?]
  cases t.first? r with
  | none => rfl
  | some c => simp [Option.filter]

/-- A comment has no kind that names are looked for in. -/
theorem choice_of_passesOver {k : NodeKind} (other : k ≠ .blockComment) {t : Tree}
    (passed : v.passesOver t = true) : (t.nodeKind? == some k) = false := by
  have comment := v.passesOver_comment passed
  cases t with
  | token | missing => rfl
  | node r kind s cs =>
      obtain rfl : kind = .blockComment := by simpa [isComment] using comment
      simpa [nodeKind?] using Ne.symm other

theorem declaredTokens_tree (t : Tree) :
    (v.tree t).declaredTokens = t.declaredTokens.map v.token := by
  have chosen : ((v.tree t).inRole .declarator).filter isNode =
      ((t.inRole .declarator).filter isNode).map v.tree := by
    rw [inRole, inRole, children_tree, List.filter_filter, List.filter_filter, filter_trees]
    · intro t
      rw [isNode_tree, role_tree]
    · intro t passed
      rw [v.passesOver_role passed]
      exact Bool.and_false _
  rw [declaredTokens, chosen, declaredTokens, List.filterMap_map, List.map_filterMap]
  congr 1
  funext d
  exact v.tokenIn?_tree d .name

theorem globalNames_tree (t : Tree) : (v.tree t).globalNames = t.globalNames := by
  have chosen : ∀ body : Tree,
      (v.tree body).childNodes.filter (·.nodeKind? == some .variableDeclaration) =
        (body.childNodes.filter (·.nodeKind? == some .variableDeclaration)).map v.tree := by
    intro body
    rw [childNodes, childNodes, children_tree, List.filter_filter, List.filter_filter, filter_trees]
    · intro t
      rw [isNode_tree, nodeKind?_tree]
    · intro t passed
      rw [v.choice_of_passesOver (by decide) passed]
      rfl
  rw [globalNames, globalNames, node?_tree]
  cases t.node? .body with
  | none => rfl
  | some body =>
      show ((v.tree body).childNodes.filter _).flatMap _ = (body.childNodes.filter _).flatMap _
      rw [chosen, List.flatMap_map]
      congr 1
      funext d
      rw [v.declaredTokens_tree, List.map_map]
      rfl

end View

namespace Names

variable {source : String} {part : Names → NameSet} {x : String}

/-- Names that are the texts of tokens are seen without comments and places. -/
theorem addNode_tree (v : View) (mem : part ∈ [structs, globals, types]) (text : String) (t : Tree) :
    part (addNode text {} (v.tree t)) = part (addNode source {} t) := by
  simp only [List.mem_cons, List.not_mem_nil, or_false] at mem
  unfold addNode
  rw [v.nodeKind?_tree, v.tokenIn?_tree, v.tokenIn?_tree, v.globalNames_tree]
  generalize t.nodeKind? = kind
  split
  · cases t.first? .name <;> cases (v.tree t).first? .name <;>
      rcases mem with rfl | rfl | rfl <;> rfl
  · cases t.tokenIn? .name <;> rfl
  · rfl
  · cases t.tokenIn? .type <;> rfl
  · cases t.callee? source <;> cases (v.tree t).callee? text <;>
      rcases mem with rfl | rfl | rfl <;> rfl
  · rfl

/-- A comment names nothing. -/
theorem addNode_of_comment (names : Names) {t : Tree} (comment : t.isComment = true) :
    addNode source names t = names := by
  cases t with
  | token | missing => rfl
  | node r kind s cs =>
      obtain rfl : kind = .blockComment := by simpa [Tree.isComment] using comment
      rfl

/-- The names in a tree are those that its nodes would be the only ones to give. -/
theorem mem_add (mem : part ∈ parts) (t : Tree) : x ∈ part (({} : Names).add t source) ↔
    ∃ e ∈ t.nodes, x ∈ part (addNode source {} e) := by
  have none : x ∉ part {} := not_mem_none mem
  rw [add, mem_foldl_addNode mem]
  constructor
  · rintro (never | ⟨e, node, named⟩)
    · exact absurd never none
    · obtain ⟨below, isNode⟩ := Tree.mem_descendants.mp node
      refine ⟨e, List.mem_filter.mpr ⟨below, ?_⟩, named⟩
      cases comment : e.isComment with
      | false => rw [isNode]; rfl
      | true =>
          rw [addNode_of_comment _ comment] at named
          exact absurd named none
  · rintro ⟨e, node, named⟩
    obtain ⟨below, isNode⟩ := List.mem_filter.mp node
    exact .inr ⟨e, Tree.mem_descendants.mpr ⟨below, (Bool.and_eq_true_iff.mp isNode).1⟩, named⟩

theorem mem_addNode_functions {e : Tree} : x ∈ (addNode source {} e).functions ↔
    e.nodeKind? = some .functionDefinition ∧
      ∃ n, e.first? .name = some n ∧ x = n.text source := by
  have none := NameSet.not_mem_empty x
  unfold addNode
  split <;> rename_i kind <;> try split
  all_goals simp_all

theorem mem_functions (t : Tree) : x ∈ (({} : Names).add t source).functions ↔
    ∃ name ∈ t.functionNames, x = name.text source := by
  rw [mem_add List.mem_cons_self, Tree.functionNames]
  simp only [List.mem_filterMap, List.mem_filter, beq_iff_eq, mem_addNode_functions]
  constructor
  · rintro ⟨e, mem, kind, name, first, same⟩
    exact ⟨name, ⟨e, ⟨mem, kind⟩, first⟩, same⟩
  · rintro ⟨name, ⟨e, ⟨mem, kind⟩, first⟩, same⟩
    exact ⟨e, mem, kind, name, first, same⟩

/-- A method is written behind what it is a method of. -/
def called (base : String) : Option String → String
  | some method => base ++ ":" ++ method
  | none => base

theorem callee?_eq_some {e : Tree} : e.callee? source = some x ↔ ∃ base, e.first? .base = some base ∧
    x = called (base.text source) ((e.tokenIn? .method).map Token.text) := by
  rw [Tree.callee?, Option.map_eq_some_iff]
  cases e.tokenIn? .method <;> exact exists_congr fun _ => and_congr_right fun _ => eq_comm

theorem mem_calls (t : Tree) : x ∈ (({} : Names).add t source).calls ↔
    ∃ callee ∈ t.callees, x = called (callee.1.text source) callee.2 := by
  have none := NameSet.not_mem_empty x
  have node : ∀ e, x ∈ (addNode source {} e).calls ↔
      (e.nodeKind? == some .functionCall) = true ∧ e.callee? source = some x := by
    intro e
    unfold addNode
    split <;> rename_i kind <;> try split
    all_goals simp_all
    exact eq_comm
  rw [mem_add (by simp [parts]), Tree.callees]
  simp only [List.mem_filterMap, List.mem_filter, node, callee?_eq_some]
  constructor
  · rintro ⟨e, mem, kind, base, first, same⟩
    exact ⟨_, ⟨e, ⟨mem, kind⟩, Option.map_eq_some_iff.mpr ⟨base, first, rfl⟩⟩, same⟩
  · rintro ⟨_, ⟨e, ⟨mem, kind⟩, callee⟩, same⟩
    obtain ⟨base, first, rfl⟩ := Option.map_eq_some_iff.mp callee
    exact ⟨e, mem, kind, base, first, same⟩

/-- The functions are spelled as they stand in the text, if no layout stands in their names. -/
theorem mem_functions_of_tight {t : Tree}
    (tight : ∀ e ∈ t.functionNames, e.text source = e.spelling) :
    x ∈ (({} : Names).add t source).functions ↔ x ∈ t.functionNames.map Tree.spelling := by
  rw [mem_functions, List.mem_map]
  constructor
  · rintro ⟨e, mem, rfl⟩
    exact ⟨e, mem, (tight e mem).symm⟩
  · rintro ⟨e, mem, rfl⟩
    exact ⟨e, mem, (tight e mem).symm⟩

theorem mem_calls_of_tight {t : Tree}
    (tight : ∀ callee ∈ t.callees, callee.1.text source = callee.1.spelling) :
    x ∈ (({} : Names).add t source).calls ↔
      x ∈ (t.callees.map fun callee => (callee.1.spelling, callee.2)).map
        fun callee => called callee.1 callee.2 := by
  rw [mem_calls, List.map_map, List.mem_map]
  constructor
  · rintro ⟨callee, mem, rfl⟩
    exact ⟨callee, mem, by rw [tight callee mem]; rfl⟩
  · rintro ⟨callee, mem, rfl⟩
    exact ⟨callee, mem, by rw [tight callee mem]; rfl⟩

/-- Names that are the texts of tokens are seen in the nodes without comments and places. -/
theorem mem_add_bare (mem : part ∈ [structs, globals, types]) (t : Tree) :
    x ∈ part (({} : Names).add t source) ↔
      ∃ e ∈ t.nodes.map View.bare.tree, x ∈ part (addNode "" {} e) := by
  rw [mem_add (List.mem_cons_of_mem _ (List.mem_append_left [_] mem))]
  constructor
  · rintro ⟨e, node, named⟩
    exact ⟨_, List.mem_map_of_mem node, by rwa [addNode_tree View.bare mem]⟩
  · rintro ⟨_, seen, named⟩
    obtain ⟨e, node, rfl⟩ := List.mem_map.mp seen
    have own : part (addNode "" {} (View.bare.tree e)) = part (addNode source {} e) :=
      addNode_tree View.bare mem "" e
    exact ⟨e, node, own ▸ named⟩

end Names

/-! ## Trees that look alike -/

namespace View

open JassSyntax.Tree

variable (v : View) {t : Tree}

theorem filter_nodes_tree (remarked : t.Remarked) (k : NodeKind) :
    ((v.tree t).nodes.filter (·.nodeKind? == some k)) =
      (t.nodes.filter (·.nodeKind? == some k)).map v.tree := by
  rw [v.nodes_tree remarked, List.filter_map]
  congr 2
  funext e
  exact congrArg (· == some k) (v.nodeKind?_tree e)

theorem functionNames_tree (remarked : t.Remarked) :
    (v.tree t).functionNames = t.functionNames.map v.tree := by
  rw [functionNames, v.filter_nodes_tree remarked, List.filterMap_map, functionNames,
    List.map_filterMap]
  congr 1
  funext e
  exact v.first?_tree e .name

theorem callees_tree (remarked : t.Remarked) :
    (v.tree t).callees = t.callees.map fun callee => (v.tree callee.1, callee.2) := by
  rw [callees, v.filter_nodes_tree remarked, List.filterMap_map, callees, List.map_filterMap]
  congr 1
  funext e
  show ((v.tree e).first? .base).map _ = ((e.first? .base).map _).map _
  rw [v.first?_tree, v.tokenIn?_tree, Option.map_map, Option.map_map, Option.map_map]
  rfl

end View

namespace Tree

variable {t e : Tree}

theorem mem_elements_of_first? {r : Role} {c : Tree} (first : e.first? r = some c)
    (mem : e ∈ t.elements) : c ∈ t.elements :=
  mem_elements_trans (mem_elements_of_child (mem_children_of_first? first)) mem

theorem mem_elements_of_functionNames (mem : e ∈ t.functionNames) : e ∈ t.elements := by
  obtain ⟨node, chosen, first⟩ := List.mem_filterMap.mp mem
  exact mem_elements_of_first? first (List.mem_filter.mp (List.mem_filter.mp chosen).1).1

theorem mem_elements_of_callees {callee : Tree × Option String} (mem : callee ∈ t.callees) :
    callee.1 ∈ t.elements := by
  obtain ⟨node, chosen, called⟩ := List.mem_filterMap.mp mem
  obtain ⟨base, first, rfl⟩ := Option.map_eq_some_iff.mp called
  exact mem_elements_of_first? first (List.mem_filter.mp (List.mem_filter.mp chosen).1).1

/-- The spellings of what functions are called, in the order of their definitions. -/
def functionSpellings (t : Tree) : List String := t.functionNames.map spelling

/-- The spellings of what is called. -/
def callSpellings (t : Tree) : List (String × Option String) :=
  t.callees.map fun callee => (callee.1.spelling, callee.2)

end Tree

namespace View

open JassSyntax.Tree

variable (v : View) {t : Tree}

theorem functionSpellings_tree (remarked : t.Remarked) :
    (v.tree t).functionSpellings = t.functionSpellings := by
  rw [functionSpellings, v.functionNames_tree remarked, List.map_map, functionSpellings]
  exact List.map_congr_left fun e mem =>
    v.spelling_tree (remarked.of_element (mem_elements_of_functionNames mem))

theorem callSpellings_tree (remarked : t.Remarked) :
    (v.tree t).callSpellings = t.callSpellings := by
  rw [callSpellings, v.callees_tree remarked, List.map_map, callSpellings]
  refine List.map_congr_left fun callee mem => ?_
  rw [Function.comp_apply, v.spelling_tree (remarked.of_element (mem_elements_of_callees mem))]

end View

/-! ## Texts -/

/-- Trees of texts with the same tokens, comments aside, look the same. -/
theorem parse_bare {source text : String}
    (same : ((scan text).1.filter (!·.isTrivia)).map (fun t => (t.kind, t.text)) =
      ((scan source).1.filter (!·.isTrivia)).map fun t => (t.kind, t.text)) :
    View.bare.tree (parse text).tree = View.bare.tree (parse source).tree := by
  have plain : ∀ source, View.bare.tree (parse source).tree =
      View.bare.tree (Program.parse (Items.plain (scan source).1)).1 := by
    intro source
    have trees := (Program.parseWithin_alike Program.maxDepth (Program.alike_plain (scan source).1)).1
    have seen := congrArg View.bare.tree trees
    rw [View.bare_tree, View.bare_tree] at seen
    exact seen.symm
  have alike := Parser.alike_ofTokens (View.token_placeless_of_texts same)
  have seen := congrArg View.bare.tree (Program.parseWithin_alike Program.maxDepth alike).1
  rw [View.bare_tree, View.bare_tree] at seen
  rw [plain text, plain source]
  exact seen

/-- **Names and layout.** Two texts with the same tokens, comments aside, have the same structs,
globals and types. Their functions are spelled alike one by one, and so is what they call. Both are
the same names if no layout stands in them. -/
theorem parse_names {source text : String}
    (same : ((scan text).1.filter (!·.isTrivia)).map (fun t => (t.kind, t.text)) =
      ((scan source).1.filter (!·.isTrivia)).map fun t => (t.kind, t.text)) :
    let t := (parse source).tree
    let u := (parse text).tree
    let names := ({} : Names).add t source
    let others := ({} : Names).add u text
    others.structs = names.structs ∧ others.globals = names.globals ∧ others.types = names.types ∧
      u.functionSpellings = t.functionSpellings ∧ u.callSpellings = t.callSpellings ∧
      ((∀ e ∈ t.functionNames, e.text source = e.spelling) →
        (∀ e ∈ u.functionNames, e.text text = e.spelling) → others.functions = names.functions) ∧
      ((∀ callee ∈ t.callees, callee.1.text source = callee.1.spelling) →
        (∀ callee ∈ u.callees, callee.1.text text = callee.1.spelling) →
          others.calls = names.calls) := by
  intro t u names others
  have seen : View.bare.tree u = View.bare.tree t := parse_bare same
  have remarked : t.Remarked := Program.remarked_parseWithin _ _
  have remarked' : u.Remarked := Program.remarked_parseWithin _ _
  have tokens : ∀ part ∈ [Names.structs, Names.globals, Names.types],
      part others = part names := by
    intro part mem
    refine NameSet.ext fun x => ?_
    rw [Names.mem_add_bare mem, Names.mem_add_bare mem, ← View.bare.nodes_tree remarked,
      ← View.bare.nodes_tree remarked', seen]
  have functions : u.functionSpellings = t.functionSpellings := by
    rw [← View.bare.functionSpellings_tree remarked', seen, View.bare.functionSpellings_tree remarked]
  have calls : u.callSpellings = t.callSpellings := by
    rw [← View.bare.callSpellings_tree remarked', seen, View.bare.callSpellings_tree remarked]
  refine ⟨tokens _ (by simp), tokens _ (by simp), tokens _ (by simp), functions, calls, ?_, ?_⟩
  · intro tight tight'
    refine NameSet.ext fun x => ?_
    rw [Names.mem_functions_of_tight tight, Names.mem_functions_of_tight tight']
    exact iff_of_eq (congrArg (x ∈ ·) functions)
  · intro tight tight'
    refine NameSet.ext fun x => ?_
    rw [Names.mem_calls_of_tight tight, Names.mem_calls_of_tight tight']
    exact iff_of_eq (congrArg (x ∈ List.map (fun callee => Names.called callee.1 callee.2) ·) calls)

/-- White space in what is called is a part of its name. The spelling is the same. -/
theorem parse_names_spaced :
    let names := ({} : Names).add (parse "a.b()").tree "a.b()"
    let others := ({} : Names).add (parse "a . b()").tree "a . b()"
    (parse "a . b()").tree.callSpellings = (parse "a.b()").tree.callSpellings ∧
      names.calls.toList = ["a.b"] ∧ others.calls.toList = ["a . b"] ∧
      others.types = names.types := by
  have same : ((scan "a . b()").1.filter (!·.isTrivia)).map (fun t => (t.kind, t.text)) =
      ((scan "a.b()").1.filter (!·.isTrivia)).map fun t => (t.kind, t.text) := by decide +kernel
  obtain ⟨-, -, types, -, calls, -⟩ := parse_names same
  exact ⟨calls, by decide +kernel, by decide +kernel, types⟩

end JassSyntax
