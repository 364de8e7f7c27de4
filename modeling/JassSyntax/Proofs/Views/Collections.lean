import JassSyntax.Proofs.Recovery.Blame
import JassSyntax.Proofs.Recovery.Named
import JassSyntax.Proofs.Shape.Names
import JassSyntax.Proofs.Views.Names

/-!
# Collected names

What a node adds to collected names does not depend on the names that are there already. So the
names of several texts are those of each of them taken together, and neither their order nor a
repetition matters. The names of one text are those in its outline: all functions and all structs,
because a function that is defined has a name, and of the variables those that are globals.
-/

namespace JassSyntax

open JassSyntax.Tree

/-! ## Several texts -/

namespace Names

variable {part : Names → NameSet} {x : String}

theorem ext_of_parts {names others : Names} (same : ∀ part ∈ parts, part others = part names) :
    others = names := by
  obtain ⟨functions, structs, globals, types, calls⟩ := names
  obtain ⟨functions', structs', globals', types', calls'⟩ := others
  simp only [parts, List.forall_mem_cons] at same
  obtain ⟨rfl, rfl, rfl, rfl, rfl, -⟩ := same
  rfl

/-- A tree adds the names that it would be the only one to give. -/
theorem mem_add_to (mem : part ∈ parts) (names : Names) (t : Tree) (source : String) :
    x ∈ part (names.add t source) ↔ x ∈ part names ∨ x ∈ part (({} : Names).add t source) := by
  rw [add, add, mem_foldl_addNode mem, mem_foldl_addNode mem {}]
  exact or_congr_right (or_iff_right (not_mem_none mem)).symm

/-- The names of one text. -/
def ofSource (source : String) : Names := ({} : Names).add (parse source).tree source

/-- The names of several texts, which are read one after another. -/
def ofSources (sources : List String) : Names :=
  sources.foldl (fun names source => names.add (parse source).tree source) {}

theorem mem_foldl_add (mem : part ∈ parts) (names : Names) (sources : List String) :
    x ∈ part (sources.foldl (fun names source => names.add (parse source).tree source) names) ↔
      x ∈ part names ∨ ∃ source ∈ sources, x ∈ part (ofSource source) := by
  induction sources generalizing names with
  | nil => simp
  | cons source sources ih =>
      rw [List.foldl_cons, ih, mem_add_to mem, or_assoc]
      simp only [List.mem_cons, exists_eq_or_imp, ofSource]

/-- **Names of several texts.** Each of the sets has exactly the names that one of the texts gives
by itself. So texts in another order, or repeated, have the same names. -/
theorem mem_ofSources (sources : List String) :
    (∀ part ∈ parts, ∀ x, x ∈ part (ofSources sources) ↔
      ∃ source ∈ sources, x ∈ part (ofSource source)) ∧
    ∀ others : List String, (∀ source, source ∈ others ↔ source ∈ sources) →
      ofSources others = ofSources sources := by
  have union : ∀ sources, ∀ part ∈ parts, ∀ x, x ∈ part (ofSources sources) ↔
      ∃ source ∈ sources, x ∈ part (ofSource source) := fun sources part mem x =>
    (mem_foldl_add mem {} sources).trans (or_iff_right (not_mem_none mem))
  refine ⟨union sources, fun others same => ext_of_parts fun part mem => NameSet.ext fun x => ?_⟩
  rw [union others part mem, union sources part mem]
  exact exists_congr fun source => and_congr_left fun _ => same source

/-- Two texts, the other way round and one of them twice. -/
theorem mem_ofSources_repeated :
    let one := "globals integer x endglobals"
    let two := "function f() end f()"
    ofSources [two, one, two] = ofSources [one, two] ∧
      (ofSources [one, two]).globals.toList = ["x"] ∧
      (ofSources [one, two]).functions.toList = ["f"] := by
  intro one two
  refine ⟨(mem_ofSources [one, two]).2 [two, one, two] fun source => ?_, by decide +kernel,
    by decide +kernel⟩
  simp only [List.mem_cons, List.not_mem_nil, or_false]
  constructor
  · rintro (h | h | h)
    · exact .inr h
    · exact .inl h
    · exact .inr h
  · rintro (h | h)
    · exact .inr (.inl h)
    · exact .inl h

end Names

/-! ## Nodes -/

variable {source x : String} {t e : Tree} {k : DefinitionKind}

namespace Names

theorem mem_addNode_structs : x ∈ (addNode source {} e).structs ↔
    e.nodeKind? = some .structDefinition ∧ ∃ n, e.tokenIn? .name = some n ∧ x = n.text := by
  have none := NameSet.not_mem_empty x
  unfold addNode
  split <;> rename_i kind <;> try split
  all_goals simp_all

theorem mem_addNode_globals : x ∈ (addNode source {} e).globals ↔
    e.nodeKind? = some .globalsBlock ∧ x ∈ e.globalNames := by
  have none := NameSet.not_mem_empty x
  unfold addNode
  split <;> rename_i kind <;> try split
  all_goals simp_all [mem_foldl_insert]

end Names

namespace Tree

/-- The names of one kind of what a node defines by itself. -/
def defined (source : String) (k : DefinitionKind) (e : Tree) : List String :=
  ((e.definitions source).filter (·.kind == k)).map (·.name)

/-- The names of one kind in an outline. -/
def listed (source : String) (k : DefinitionKind) (t : Tree) : List String :=
  ((t.outline source).filter (·.kind == k)).map (·.name)

theorem mem_listed : x ∈ t.listed source k ↔ ∃ e ∈ t.descendants, x ∈ e.defined source k := by
  rw [listed, outline, List.filter_flatMap, List.map_flatMap, List.mem_flatMap]
  rfl

theorem mem_defined_function : x ∈ e.defined source .function ↔
    e.nodeKind? = some .functionDefinition ∧
      ∃ n, e.first? .name = some n ∧ n.isMissing = false ∧ x = n.text source := by
  unfold defined definitions
  split <;> rename_i kind <;> try split
  all_goals simp_all [Definition.located, Definition.ofToken]
  exact fun _ => eq_comm

theorem mem_defined_struct : x ∈ e.defined source .struct ↔
    e.nodeKind? = some .structDefinition ∧ ∃ n, e.tokenIn? .name = some n ∧ x = n.text := by
  unfold defined definitions
  split <;> rename_i kind <;> try split
  all_goals simp_all [Definition.located, Definition.ofToken, List.filter_map, Function.comp_def]
  exact exists_congr fun _ => and_congr_right fun _ => eq_comm

theorem mem_defined_variable : x ∈ e.defined source .variable ↔
    e.nodeKind? = some .variableDeclaration ∧ x ∈ e.declaredTokens.map Token.text := by
  unfold defined definitions
  split <;> rename_i kind <;> try split
  all_goals simp_all [Definition.located, Definition.ofToken, List.filter_map, Function.comp_def]

/-- What a block of globals declares is defined by a declaration in it. -/
theorem exists_declaration (mem : x ∈ e.globalNames) :
    ∃ d ∈ e.descendants, x ∈ d.defined source .variable := by
  obtain ⟨d, declaration, declared⟩ := List.mem_flatMap.mp mem
  obtain ⟨inside, kind⟩ := List.mem_filter.mp declaration
  have kind : d.nodeKind? = some .variableDeclaration := by simpa using kind
  refine ⟨d, mem_descendants.mpr ⟨?_, by rw [isNode, kind]; rfl⟩,
    mem_defined_variable.mpr ⟨kind, declared⟩⟩
  cases found : e.node? .body with
  | none => simp [found] at inside
  | some body =>
      have below : d ∈ body.children := by
        rw [found] at inside
        exact (List.mem_filter.mp inside).1
      have first : e.first? .body = some body := (Option.filter_eq_some_iff.mp found).1
      exact mem_elements_below (mem_children_of_first? first) (mem_elements_of_child below)

/-- The name of a function that is defined is no placeholder. -/
theorem FunctionsNamed.isMissing_of_first? {n : Tree} (named : t.FunctionsNamed)
    (unmarked : t.Unmarked) (built : ∀ e ∈ t.elements, e.WellBuilt .full ∨ e.Comment)
    (mem : e ∈ t.elements) (node : e.nodeKind? = some .functionDefinition)
    (first : e.first? .name = some n) : n.isMissing = false := by
  have plain : ¬e.Comment := by rintro ⟨⟩ <;> cases node
  have word := ((built e mem).resolve_right plain).derived _ node
  obtain ⟨m, -, only⟩ := Production.single_production List.mem_cons_self _ word
  have part {c : Tree} (child : c ∈ e.children) (role : c.role = some .name) : c = m :=
    only c ((unmarked.of_element mem).part plain child role) role
  obtain ⟨c, child, role, there⟩ := named e mem node
  rw [part (mem_children_of_first? first) (role_of_first? first), ← part child role]
  exact there

/-- Of a tree with names for all functions, functions and structs are listed as they are collected,
and the globals are among the variables that are listed. -/
theorem FunctionsNamed.listed (named : t.FunctionsNamed) (unmarked : t.Unmarked)
    (built : ∀ e ∈ t.elements, e.WellBuilt .full ∨ e.Comment) :
    (∀ x, x ∈ (({} : Names).add t source).functions ↔ x ∈ t.listed source .function) ∧
    (∀ x, x ∈ (({} : Names).add t source).structs ↔ x ∈ t.listed source .struct) ∧
    ∀ x, x ∈ (({} : Names).add t source).globals → x ∈ t.listed source .variable := by
  have collected {part : Names → NameSet} (mem : part ∈ Names.parts) (x : String) :
      x ∈ part (({} : Names).add t source) ↔
        ∃ e ∈ t.descendants, x ∈ part (Names.addNode source {} e) :=
    (Names.mem_foldl_addNode mem {} t.descendants).trans (or_iff_right (Names.not_mem_none mem))
  refine ⟨fun x => ?_, fun x => ?_, fun x global => ?_⟩
  · rw [collected (by simp [Names.parts]), mem_listed]
    refine exists_congr fun e => and_congr_right fun node => ?_
    rw [Names.mem_addNode_functions, mem_defined_function]
    refine and_congr_right fun kind => exists_congr fun n => and_congr_right fun first => ?_
    exact (and_iff_right (named.isMissing_of_first? unmarked built (mem_descendants.mp node).1 kind
      first)).symm
  · rw [collected (by simp [Names.parts]), mem_listed]
    refine exists_congr fun e => and_congr_right fun node => ?_
    rw [Names.mem_addNode_structs, mem_defined_struct]
  · obtain ⟨block, node, named⟩ := (collected (by simp [Names.parts]) x).mp global
    obtain ⟨d, below, declared⟩ := exists_declaration (Names.mem_addNode_globals.mp named).2
    refine mem_listed.mpr ⟨d, mem_descendants.mpr ⟨?_, (mem_descendants.mp below).2⟩, declared⟩
    exact mem_elements_trans (mem_descendants.mp below).1 (mem_descendants.mp node).1

end Tree

/-- **Outlines and collected names agree.** The functions of a text are the names of the functions
in its outline, its structs are the names of the structs there, and its globals are names of
variables there. -/
theorem parse_listed (source : String) :
    let t := (parse source).tree
    let names := Names.ofSource source
    (∀ x, x ∈ names.functions ↔ x ∈ t.listed source .function) ∧
    (∀ x, x ∈ names.structs ↔ x ∈ t.listed source .struct) ∧
    names.globals.toList ⊆ t.listed source .variable := by
  intro t names
  have lawful := Program.parseWithin_lawful (m := .full) Program.maxDepth (scan source).1 trivial
  have remarked := Program.remarked_parseWithin Program.maxDepth (scan source).1
  exact (Program.parseWithin_functionsNamed Program.maxDepth (scan source).1).listed
    (Program.unmarked_parseWithin _ _) (lawful.elements remarked)

end JassSyntax
