import JassSyntax.Proofs.Writing.Parts

/-!
# Reading written statements

Each statement is told from the others by its first word, or by its first two, and is read up to the
semicolon that is written behind it.
-/

namespace JassSyntax

open JassSyntax.Tree Abstract

variable {inner : Level} {d : Nat} {rest : List Token} {p : Parser}

namespace Statement

/-- The statement is read as it is meant, up to its semicolon. -/
def Reads (inner : Level) (d : Nat) (s : Stmt) : Prop :=
  ∀ p rest, p.At d (s.tree.leaves ++ rest) → firstKind rest = .semicolon →
    Found s.tree d rest (statement inner p)

/-! ## Blocks -/

theorem simpleBlock_found {b : SimpleBlock} {ss : List Stmt} (body : inner.FindsBody d ss)
    (h : p.At d ((Stmt.block b ss).tree.leaves ++ rest)) :
    Found (Stmt.block b ss).tree d rest (simpleBlock inner b.node p) := by
  have words : p.At d (.spelled b.opener :: (leavesAll (bodyPart (bodyTrees ss)) ++
      .spelled b.closer :: rest)) := by
    simpa [Stmt.tree, closed] using h
  have opened := (words.start b.node).bump
  rw [Stmt.tree, closed]
  exact (opened.closedBody b.node_closer body).finish

theorem struct_found {name : String} {ss : List Stmt} (body : inner.FindsBody d ss)
    (h : p.At d ((Stmt.struct name ss).tree.leaves ++ rest)) :
    Found (Stmt.struct name ss).tree d rest (struct inner p) := by
  have words : p.At d (.spelled .kwStruct :: .spelled .identifier name ::
      (leavesAll (bodyPart (bodyTrees ss)) ++ .spelled .kwEndStruct :: rest)) := by
    simpa [Stmt.tree, closed] using h
  have named := (words.start .structDefinition).bump.expectName rfl .name
  rw [Stmt.tree, closed]
  exact (named.closedBody rfl body).finish

theorem whileLoop_found {c : Expr} {ss : List Stmt} (condition : inner.Finds d Power.assignment c)
    (body : inner.FindsBody d ss) (h : p.At d ((Stmt.whileLoop c ss).tree.leaves ++ rest)) :
    Found (Stmt.whileLoop c ss).tree d rest (whileLoop inner p) := by
  have words : p.At d (.spelled .kwWhile :: (c.tree.leaves ++ .spelled .kwDo ::
      (leavesAll (bodyPart (bodyTrees ss)) ++ .spelled .kwEnd :: rest))) := by
    simpa [Stmt.tree, closed] using h
  have opened := (words.start .whileStatement).bump
  have headed := (opened.child (some .condition) (condition _ _ opened.parser rfl)).expect .kwDo rfl
  rw [Stmt.tree, closed]
  exact (headed.closedBody rfl body).finish

/-- The condition of a loop that is closed by it is read behind the closer. -/
theorem repeatLoop_found {c : Expr} {ss : List Stmt} (condition : inner.Finds d Power.assignment c)
    (body : inner.FindsBody d ss) (h : p.At d ((Stmt.repeatLoop ss c).tree.leaves ++ rest))
    (ended : (firstKind rest).continues Power.assignment = false) :
    Found (Stmt.repeatLoop ss c).tree d rest (repeatLoop inner p) := by
  have words : p.At d (.spelled .kwRepeat :: (leavesAll (bodyPart (bodyTrees ss)) ++
      .spelled .kwUntil :: (c.tree.leaves ++ rest))) := by
    simpa [Stmt.tree] using h
  have opened := (words.start .repeatStatement).bump
  have closing : ∀ k ∈ [Kind.kwUntil], k.isClosingKeyword = true := by decide
  have inside := opened.within closing _ fun g holds =>
    body _ _ g [.kwUntil] _ holds closing List.mem_cons_self
  have closed := inside.close rfl
  have read := (closed.child (some .condition) (condition _ rest closed.parser ended)).finish
  rw [List.append_assoc] at read
  unfold repeatLoop
  dsimp only
  rw [if_pos (by rw [inside.current]; rfl), Stmt.tree]
  exact read

/-! ## Branches -/

/-- The levels read the branches after the first as they are meant. -/
def FindsBranches (inner : Level) (d : Nat) : Branches → Prop
  | .done => True
  | .otherwise body => inner.FindsBody d body
  | .elseif c body rest =>
    inner.Finds d Power.assignment c ∧ inner.FindsBody d body ∧ FindsBranches inner d rest

theorem branch_holds {k : NodeKind} {cs : List Tree} {f : Frame} {c : Expr} {w : Token}
    (condition : inner.Finds d Power.assignment c)
    (h : f.Holds k cs d (w :: (c.tree.leaves ++ .spelled .kwThen :: rest))) :
    (branch inner f).Holds k
      (cs ++ [.token none w, c.tree.withRole (some .condition), mark .kwThen]) d rest := by
  have opened := h.bump
  have conditioned := opened.child (some .condition) (condition _ _ opened.parser rfl)
  have headed := conditioned.expect .kwThen rfl
  rw [List.append_assoc, List.append_assoc] at headed
  exact headed

theorem first_branches (branches : Branches) :
    firstKind (leavesAll branches.trees ++ .spelled .kwEnd :: rest) ∈ branchEnds := by
  cases branches <;> simp [Branches.trees, branchEnds]

theorem elseifClause_found {c : Expr} {ss : List Stmt}
    (condition : inner.Finds d Power.assignment c) (body : inner.FindsBody d ss)
    (h : p.At d (.spelled .kwElseIf :: (c.tree.leaves ++ .spelled .kwThen ::
      (leavesAll (bodyPart (bodyTrees ss)) ++ rest)))) (ends : firstKind rest ∈ branchEnds) :
    Found (build .elseifClause (mark .kwElseIf :: c.tree.withRole (some .condition) ::
      mark .kwThen :: bodyPart (bodyTrees ss))) d rest (elseifClause inner p) := by
  have headed := branch_holds condition (h.start .elseifClause)
  exact (body _ _ _ branchEnds rest headed branchEnds_closing ends).finish

theorem elseClause_found {ss : List Stmt} (body : inner.FindsBody d ss)
    (h : p.At d (.spelled .kwElse :: (leavesAll (bodyPart (bodyTrees ss)) ++ rest)))
    (ends : firstKind rest = .kwEnd) :
    Found (build .elseClause (mark .kwElse :: bodyPart (bodyTrees ss))) d rest
      (elseClause inner p) := by
  have opened := (h.start .elseClause).bump
  have mem : firstKind rest ∈ [Kind.kwEnd] := by rw [ends]; exact List.mem_cons_self
  exact (body _ _ _ [.kwEnd] rest opened (by decide) mem).finish

/-- The branches of a conditional behind the body of its first. -/
def laterBranches (inner : Level) (f : Frame) : Frame :=
  let f := f.loop (clauseStep inner)
  if f.current = .kwElse then f.child (some .alternative) (elseClause inner) else f

theorem clauseStep_stop {f : Frame} (other : f.current ≠ .kwElseIf) :
    f.loop (clauseStep inner) = f := by
  have stop : clauseStep inner f = (f, false) := if_neg other
  rw [Frame.loop_of_stop (by rw [stop]), stop]

theorem laterBranches_holds {k : NodeKind} : ∀ {branches : Branches} {cs : List Tree} {f : Frame},
    FindsBranches inner d branches →
    f.Holds k cs d (leavesAll branches.trees ++ .spelled .kwEnd :: rest) →
    (laterBranches inner f).Holds k (cs ++ branches.trees) d (.spelled .kwEnd :: rest)
  | .done, cs, f, _, h => by
      have words : f.Holds k cs d (.spelled .kwEnd :: rest) := by simpa [Branches.trees] using h
      unfold laterBranches
      dsimp only
      rw [clauseStep_stop (by simp [words.current]), if_neg (by simp [words.current])]
      simpa [Branches.trees] using words
  | .otherwise body, cs, f, finds, h => by
      have words : f.Holds k cs d (.spelled .kwElse :: (leavesAll (bodyPart (bodyTrees body)) ++
          .spelled .kwEnd :: rest)) := by
        simpa [Branches.trees] using h
      unfold laterBranches
      dsimp only
      rw [clauseStep_stop (by simp [words.current]), if_pos (by rw [words.current]; rfl)]
      have read := words.child (some .alternative) (elseClause_found finds words.parser rfl)
      simpa [Branches.trees] using read
  | .elseif c body more, cs, f, finds, h => by
      obtain ⟨condition, body', more'⟩ := finds
      have words : f.Holds k cs d (.spelled .kwElseIf :: (c.tree.leaves ++ .spelled .kwThen ::
          (leavesAll (bodyPart (bodyTrees body)) ++
            (leavesAll more.trees ++ .spelled .kwEnd :: rest)))) := by
        simpa [Branches.trees] using h
      have next := words.child (some .alternative)
        (elseifClause_found condition body' words.parser (first_branches more))
      have goes : clauseStep inner f = (f.child (some .alternative) (elseifClause inner), true) :=
        if_pos words.current
      have all := laterBranches_holds more' next
      unfold laterBranches at all ⊢
      rw [words.loop_next goes next (by simp only [List.length_cons, List.length_append]; omega)]
      simpa [Branches.trees] using all

theorem conditional_found {c : Expr} {ss : List Stmt} {branches : Branches}
    (condition : inner.Finds d Power.assignment c) (body : inner.FindsBody d ss)
    (finds : FindsBranches inner d branches)
    (h : p.At d ((Stmt.conditional c ss branches).tree.leaves ++ rest)) :
    Found (Stmt.conditional c ss branches).tree d rest (conditional inner p) := by
  have words : p.At d (.spelled .kwIf :: (c.tree.leaves ++ .spelled .kwThen ::
      (leavesAll (bodyPart (bodyTrees ss)) ++
        (leavesAll branches.trees ++ .spelled .kwEnd :: rest)))) := by
    simpa [Stmt.tree, closed] using h
  have headed := branch_holds condition (words.start .ifStatement)
  have inside := headed.within branchEnds_closing (Statement.branches inner) fun g holds =>
    laterBranches_holds finds
      (body _ _ g branchEnds _ holds branchEnds_closing (first_branches branches))
  rw [Stmt.tree, closed]
  exact (inside.close rfl).finish

/-! ## Functions -/

theorem members_holds {k : NodeKind} (ended : firstKind rest ≠ .dot) :
    ∀ {members : List String} {cs : List Tree} {f : Frame},
      f.Holds k cs d (leavesAll (memberTrees members) ++ rest) →
      (f.loop memberStep).Holds k (cs ++ memberTrees members) d rest
  | [], cs, f, h => by
      have words : f.Holds k cs d rest := by simpa [memberTrees] using h
      have stop : memberStep f = (f, false) := if_neg (by rw [words.current]; exact ended)
      rw [Frame.loop_of_stop (by rw [stop]), stop]
      simpa [memberTrees] using words
  | member :: members, cs, f, h => by
      have words : f.Holds k cs d (.spelled .dot :: .spelled .identifier member ::
          (leavesAll (memberTrees members) ++ rest)) := by
        simpa [memberTrees] using h
      have goes : memberStep f = (f.bump.expectName .name, true) := if_pos words.current
      have next := words.bump.expectName rfl .name
      rw [words.loop_next goes next (by simp only [List.length_cons, List.length_append]; omega)]
      have all := members_holds ended next
      simpa [memberTrees, mark, ident, word] using all

theorem qualifiers_holds {k : NodeKind} {cs : List Tree} {f : Frame} {members : List String}
    {method : Option String} (dot : firstKind rest ≠ .dot) (colon : firstKind rest ≠ .colon)
    (h : f.Holds k cs d (leavesAll (memberTrees members ++ methodTrees method) ++ rest)) :
    (qualifiers f).Holds k (cs ++ (memberTrees members ++ methodTrees method)) d rest := by
  rw [leavesAll_append, List.append_assoc] at h
  rw [qualifiers_eq]
  dsimp only
  cases method with
  | none =>
      have named := members_holds (by simpa [methodTrees] using dot) h
      have words : (f.loop memberStep).Holds k (cs ++ memberTrees members) d rest := by
        simpa [methodTrees] using named
      rw [if_neg (by rw [words.current]; exact colon)]
      simpa [methodTrees] using words
  | some method =>
      have named := members_holds (by simp [methodTrees]) h
      have words : (f.loop memberStep).Holds k (cs ++ memberTrees members) d
          (.spelled .colon :: .spelled .identifier method :: rest) := by
        simpa [methodTrees] using named
      rw [if_pos (by rw [words.current]; rfl), ← List.append_assoc]
      have read := words.bump.expectName rfl .method
      rw [List.append_assoc] at read
      exact read

theorem first_parts (members : List String) (method : Option String)
    (more : memberTrees members ++ methodTrees method ≠ []) :
    let next := firstKind (leavesAll (memberTrees members ++ methodTrees method) ++ rest)
    next = .dot ∨ next = .colon := by
  cases members with
  | nil =>
      cases method with
      | none => exact absurd rfl more
      | some method => exact .inr (by simp [memberTrees, methodTrees])
  | cons member members => exact .inl (by simp [memberTrees])

/-- A name of several parts is told by what follows its first. -/
theorem functionName_holds {k : NodeKind} {cs : List Tree} {f : Frame} (name : FunctionName)
    (ended : firstKind rest = .lParen) (h : f.Holds k cs d (name.tree.leaves ++ rest)) :
    (functionName f).Holds k (cs ++ [name.tree.withRole (some .name)]) d rest := by
  obtain ⟨first, members, method⟩ := name
  by_cases more : memberTrees members ++ methodTrees method = []
  -- What follows a plain name is the parenthesis of the parameters.
  · have tree : FunctionName.tree ⟨first, members, method⟩ = ident first := by
      unfold FunctionName.tree
      rw [more]
    rw [tree] at h ⊢
    have words : f.Holds k cs d (.spelled .identifier first :: rest) := by simpa using h
    rcases functionName_cases f with ⟨several, _⟩ | ⟨_, e⟩
    · rw [words.parser.second_kind, List.tail_cons, ended] at several
      rcases several with dot | colon
      · cases dot
      · cases colon
    · have looked : Frame.Holds k cs d (.spelled .identifier first :: rest)
          { f with parser := f.parser.second.2 } :=
        ⟨words.kind, words.children, words.parser.second⟩
      rw [e]
      exact looked.expectName rfl .name
  · have tree : FunctionName.tree ⟨first, members, method⟩ = build .functionName
        (ident first (some .base) :: (memberTrees members ++ methodTrees method)) := by
      unfold FunctionName.tree
      cases parts : memberTrees members ++ methodTrees method with
      | nil => exact absurd parts more
      | cons t ts => rfl
    rw [tree] at h ⊢
    have words : f.Holds k cs d (.spelled .identifier first ::
        (leavesAll (memberTrees members ++ methodTrees method) ++ rest)) := by
      simpa using h
    rcases functionName_cases f with ⟨_, e⟩ | ⟨single, _⟩
    · have base := (words.parser.start .functionName).bump (some .base)
      have read := qualifiers_holds (by rw [ended]; decide) (by rw [ended]; decide) base
      rw [e]
      exact words.child (some .name) read.finish
    · rw [words.parser.second_kind] at single
      exact absurd (first_parts members method more) single

theorem functionDefinition_found {name : FunctionName} {ps : List Parameter} {ss : List Stmt}
    (body : inner.FindsBody d ss)
    (h : p.At d ((Stmt.function name ps ss).tree.leaves ++ rest)) :
    Found (Stmt.function name ps ss).tree d rest (functionDefinition inner p) := by
  have words : p.At d (.spelled .kwFunction :: (name.tree.leaves ++ ((parameterTree ps).leaves ++
      (leavesAll (bodyPart (bodyTrees ss)) ++ .spelled .kwEnd :: rest)))) := by
    simpa [Stmt.tree, closed] using h
  have opened := (words.start .functionDefinition).bump
  have named := functionName_holds name (by simp [parameterTree]) opened
  rw [Stmt.tree, closed]
  exact (named.parameters.closedBody rfl body).finish

/-! ## Declarations -/

/-- What follows a declarator. -/
def endsDeclarator (k : Kind) : Bool :=
  match k with
  | .comma | .semicolon => true
  | _ => false

/-- The level reads the value of a declarator as it is meant. -/
def FindsDeclarator (inner : Level) (d : Nat) : Declarator → Prop
  | .plain _ => True
  | .assigned _ e => inner.Finds d Power.assignment e

theorem first_declarator (declarator : Declarator) :
    firstKind (declarator.tree.leaves ++ rest) = .identifier := by
  cases declarator <;> simp [Declarator.tree]

theorem second_declarator (declarator : Declarator)
    (ended : endsDeclarator (firstKind rest) = true) :
    firstKind (declarator.tree.leaves ++ rest).tail = .equals ∨
      endsDeclarator (firstKind (declarator.tree.leaves ++ rest).tail) = true := by
  cases declarator with
  | plain name => exact .inr (by simpa [Declarator.tree] using ended)
  | assigned name e => exact .inl (by simp [Declarator.tree])

/-- Declarators begin with the first of them. -/
theorem first_declarators (first : Declarator) (more : List Declarator)
    (ended : firstKind rest = .semicolon) :
    ∃ ws, leavesAll (listed ((first :: more).map fun x =>
        x.tree.withRole (some .declarator))) ++ rest = first.tree.leaves ++ ws ∧
      endsDeclarator (firstKind ws) = true := by
  cases more with
  | nil => exact ⟨rest, by simp, by simp [ended, endsDeclarator]⟩
  | cons x more => exact ⟨_, by simp; rfl, rfl⟩

theorem declarator_found {x : Declarator} (finds : FindsDeclarator inner d x)
    (h : p.At d (x.tree.leaves ++ rest)) (ended : endsDeclarator (firstKind rest) = true) :
    Found x.tree d rest (declarator inner p) := by
  cases x with
  | plain name =>
      have words : p.At d (.spelled .identifier name :: rest) := by
        simpa [Declarator.tree] using h
      have named := (words.start .declarator).expectName rfl .name
      rcases declarator_cases inner p with ⟨equals, _⟩ | ⟨_, e⟩
      · rw [named.current] at equals
        rw [equals] at ended
        cases ended
      · rw [e, Declarator.tree]
        exact named.finish
  | assigned name e =>
      have words : p.At d (.spelled .identifier name :: .spelled .equals ::
          (e.tree.leaves ++ rest)) := by
        simpa [Declarator.tree] using h
      have named := (words.start .declarator).expectName rfl .name
      rcases declarator_cases inner p with ⟨_, same⟩ | ⟨other, _⟩
      · have ends : (firstKind rest).continues Power.assignment = false := by
          revert ended
          cases firstKind rest <;> decide
        have read := named.bump.child (some .value) (finds _ rest named.bump.parser ends)
        rw [same, Declarator.tree]
        exact read.finish
      · exact absurd named.current other

theorem leavesAll_map_token (role : Option Role) (us : List Token) :
    leavesAll (us.map (Tree.token role)) = us := by
  induction us with
  | nil => rfl
  | cons u us ih => rw [List.map_cons, leavesAll_cons, ih, Tree.leaves, List.singleton_append]

/-- The words of modifiers. -/
def modifierWords (ms : List Modifier) : List Token := ms.map fun m => .spelled m.kind

theorem modifierTrees_eq (ms : List Modifier) :
    modifierTrees ms = (modifierWords ms).map (Tree.token (some .modifier)) := by
  rw [modifierWords, List.map_map]
  rfl

/-- The words behind the type of arrays. -/
def arrayWords (n : Nat) : List Token := List.replicate n (.spelled .kwArray)

theorem arrayTrees_eq (n : Nat) : List.replicate n (mark .kwArray (some .modifier)) =
    (arrayWords n).map (Tree.token (some .modifier)) := by
  rw [arrayWords, List.map_replicate]
  rfl

theorem modifierWords_pass (ms : List Modifier) :
    ∀ u ∈ modifierWords ms, u.kind.isModifier = true := by
  intro u mem
  obtain ⟨m, _, rfl⟩ := List.mem_map.mp mem
  exact m.modifies

/-- What stands before the names is read up to the first of them, which is known by what follows
it. -/
theorem heading_holds (heading : Heading) {names : List Token}
    (name : firstKind names = .identifier)
    (untyped : ¬(firstKind names.tail = .identifier ∨ firstKind names.tail = .kwArray))
    (h : p.At d (leavesAll heading.trees ++ names)) :
    (declaredType p.kind.isModifier ((p.start .variableDeclaration).bumpWhile (some .modifier)
      Kind.isModifier)).Holds .variableDeclaration heading.trees d names := by
  cases heading with
  | untyped first more =>
      rw [Heading.trees, modifierTrees_eq] at h ⊢
      rw [leavesAll_map_token] at h
      have modified : p.kind.isModifier = true := by
        rw [h.kind]
        exact first.modifies
      have read := (h.start .variableDeclaration).bumpWhile (some .modifier) Kind.isModifier
        (by rw [name]; rfl) (modifierWords_pass _)
      rw [modified, declaredType_untyped (by rw [read.current, name])
        (by rw [read.parser.second_kind]; exact untyped)]
      exact ⟨read.kind, read.children, read.parser.second⟩
  | typed modifiers type arrays =>
      have words : p.At d (modifierWords modifiers ++ .spelled .identifier type ::
          (arrayWords arrays ++ names)) := by
        simpa [Heading.trees, modifierTrees_eq, arrayTrees_eq, leavesAll_map_token] using h
      have read := (words.start .variableDeclaration).bumpWhile (some .modifier) Kind.isModifier
        rfl (modifierWords_pass _)
      have typed : firstKind (arrayWords arrays ++ names) = .identifier ∨
          firstKind (arrayWords arrays ++ names) = .kwArray := by
        cases arrays with
        | zero => exact .inl name
        | succ n => exact .inr rfl
      rw [declaredType_typed _ read.current (by rw [read.parser.second_kind]; exact typed)]
      have all := (read.bump (some .type)).bumpWhile (some .modifier) (· = .kwArray)
        (by rw [name]; rfl) (fun u mem => by rw [List.eq_of_mem_replicate mem]; rfl)
      rw [Heading.trees, modifierTrees_eq, arrayTrees_eq]
      simpa [ident, word] using all

theorem declaration_found {heading : Heading} {first : Declarator} {more : List Declarator}
    (finds : ∀ x ∈ first :: more, FindsDeclarator inner d x)
    (h : p.At d ((Stmt.declaration heading first more).tree.leaves ++ rest))
    (ended : firstKind rest = .semicolon) :
    Found (Stmt.declaration heading first more).tree d rest (declaration inner p) := by
  have items : first.tree.withRole (some .declarator) :: declaratorTrees more =
      (first :: more).map fun x => x.tree.withRole (some .declarator) := by
    rw [List.map_cons, declaratorTrees_eq_map]
  rw [Stmt.tree, items] at h ⊢
  rw [leaves_build, leavesAll_append, List.append_assoc] at h
  obtain ⟨ws, words, ends⟩ := first_declarators first more ended
  have named := heading_holds heading
    (by rw [words]; exact first_declarator first)
    (by
      rw [words]
      rcases second_declarator first ends with equals | ends
      · simp [equals]
      · revert ends
        cases firstKind (first.tree.leaves ++ ws).tail <;> decide) h
  refine (named.commaSeparated (by simp [ended]) ?_).finish
  intro u mem g cs ws holds after
  have mem : u ∈ (first :: more).map fun x => x.tree.withRole (some .declarator) := mem
  obtain ⟨x, here, rfl⟩ := List.mem_map.mp mem
  rw [leaves_withRole] at holds
  refine holds.child _ (declarator_found (finds x here) holds.parser ?_)
  rcases after with comma | same
  · simp [comma, endsDeclarator]
  · simp [same, ended, endsDeclarator]

/-! ## Telling statements apart -/

theorem block_read (b : SimpleBlock) {ss : List Stmt} (body : inner.FindsBody d ss) :
    Reads inner d (.block b ss) := by
  intro p rest h _
  have kind : p.kind = b.opener := by simp [h.kind, Stmt.tree, closed]
  have read := simpleBlock_found body h
  unfold statement
  rw [kind]
  cases b <;> exact read

theorem struct_read (name : String) {ss : List Stmt} (body : inner.FindsBody d ss) :
    Reads inner d (.struct name ss) := by
  intro p rest h _
  have kind : p.kind = .kwStruct := by simp [h.kind, Stmt.tree, closed]
  unfold statement
  rw [kind]
  exact struct_found body h

theorem whileLoop_read {c : Expr} {ss : List Stmt} (condition : inner.Finds d Power.assignment c)
    (body : inner.FindsBody d ss) : Reads inner d (.whileLoop c ss) := by
  intro p rest h _
  have kind : p.kind = .kwWhile := by simp [h.kind, Stmt.tree, closed]
  unfold statement
  rw [kind]
  exact whileLoop_found condition body h

theorem repeatLoop_read {c : Expr} {ss : List Stmt} (condition : inner.Finds d Power.assignment c)
    (body : inner.FindsBody d ss) : Reads inner d (.repeatLoop ss c) := by
  intro p rest h ended
  have kind : p.kind = .kwRepeat := by simp [h.kind, Stmt.tree]
  unfold statement
  rw [kind]
  exact repeatLoop_found condition body h (by rw [ended]; rfl)

theorem conditional_read {c : Expr} {ss : List Stmt} {branches : Branches}
    (condition : inner.Finds d Power.assignment c) (body : inner.FindsBody d ss)
    (finds : FindsBranches inner d branches) : Reads inner d (.conditional c ss branches) := by
  intro p rest h _
  have kind : p.kind = .kwIf := by simp [h.kind, Stmt.tree, closed]
  unfold statement
  rw [kind]
  exact conditional_found condition body finds h

theorem first_functionName (name : FunctionName) :
    firstKind (name.tree.leaves ++ rest) = .identifier := by
  unfold FunctionName.tree
  split <;> simp

/-- A definition is told from a function as a value by the name of the function. -/
theorem function_read (name : FunctionName) (ps : List Parameter) {ss : List Stmt}
    (body : inner.FindsBody d ss) : Reads inner d (.function name ps ss) := by
  intro p rest h _
  have kind : p.kind = .kwFunction := by simp [h.kind, Stmt.tree, closed]
  have named : p.second.1 = .identifier := by
    rw [h.second_kind]
    simp [Stmt.tree, closed, first_functionName]
  have same : p.second.2 = p := Parser.second_of_ne_eof (by rw [named]; decide)
  unfold statement
  rw [kind]
  dsimp only
  rw [if_pos named, same]
  exact functionDefinition_found body h

/-- A declaration is told from an expression by its modifiers, or by what follows its type. -/
theorem statement_of_declaration (declares : p.kind.isModifier = true ∨
    p.kind = .identifier ∧ (p.second.1 = .identifier ∨ p.second.1 = .kwArray)) :
    statement inner p = declaration inner p := by
  rcases declares with modified | ⟨name, typed⟩
  · unfold statement
    revert modified
    cases p.kind <;> first | (intro modified; rfl) | (intro modified; cases modified)
  · have same : p.second.2 = p :=
      Parser.second_of_ne_eof (by rcases typed with h | h <;> rw [h] <;> decide)
    unfold statement
    rw [name]
    dsimp only
    rw [if_pos typed, same]

theorem declaration_read {heading : Heading} {first : Declarator} {more : List Declarator}
    (finds : ∀ x ∈ first :: more, FindsDeclarator inner d x) :
    Reads inner d (.declaration heading first more) := by
  intro p rest h ended
  have read := declaration_found finds h ended
  rw [statement_of_declaration]
  · exact read
  rw [h.kind, h.second_kind]
  have items : declaratorTrees (first :: more) =
      (first :: more).map fun x => x.tree.withRole (some .declarator) := declaratorTrees_eq_map _
  obtain ⟨ws, words, _⟩ := first_declarators first more ended
  rw [declaratorTrees] at items
  rw [Stmt.tree, items, leaves_build, leavesAll_append, List.append_assoc, words]
  cases heading with
  | untyped modifier modifiers => exact .inl modifier.modifies
  | typed modifiers type arrays =>
      cases modifiers with
      | cons modifier modifiers => exact .inl modifier.modifies
      | nil =>
          refine .inr ⟨rfl, ?_⟩
          cases arrays with
          | zero =>
              exact .inl (by simpa [Heading.trees, modifierTrees] using first_declarator first)
          | succ n => exact .inr rfl

theorem returns_read {es : List Expr} (finds : ∀ e ∈ es, inner.Finds d Power.assignment e)
    (grouped : groupedAll es = true) : Reads inner d (.returns es) := by
  intro p rest h ended
  have items : (trees es).map (Tree.withRole (some .value)) =
      es.map fun e => e.tree.withRole (some .value) := by
    rw [trees_eq_map, List.map_map]
    rfl
  have words : p.At d (.spelled .kwReturn ::
      (leavesAll (listed (es.map fun e => e.tree.withRole (some .value))) ++ rest)) := by
    simpa [Stmt.tree, ← items] using h
  have opened := (words.start .returnStatement).bump
  unfold statement
  rw [words.kind]
  show Found _ d rest (returnStatement inner p)
  unfold returnStatement
  dsimp only
  rw [Stmt.tree, items]
  cases es with
  | nil =>
      rw [if_neg (by simp [opened.current, ended, Kind.canStartExpression])]
      exact opened.finish
  | cons e es =>
      rw [groupedAll, Bool.and_eq_true, Bool.and_eq_true] at grouped
      have starts := Expr.first_listed grouped.1.2 rest es (some .value)
      rw [if_pos (by rw [opened.current]; exact starts)]
      exact (Expression.expressions_found (some .value) finds (by rw [ended]; rfl) opened).finish

theorem breaks_read : Reads inner d .breaks := by
  intro p rest h _
  have words : p.At d (.spelled .kwBreak :: rest) := by simpa [Stmt.tree] using h
  unfold statement
  rw [words.kind, Stmt.tree]
  exact ((words.start .breakStatement).bump).finish

variable (inner) in
theorem semicolon_found (h : p.At d (.spelled .semicolon :: rest)) :
    Found semicolon d rest (statement inner p) := by
  unfold statement
  rw [h.kind]
  exact ((h.start .emptyStatement).bump).finish

theorem empty_read : Reads inner d .empty := by
  intro p rest h _
  rw [Stmt.tree] at h ⊢
  exact semicolon_found inner (by simpa [semicolon] using h)

theorem expression_found {e : Expr} (finds : inner.Finds d Power.comma e)
    (h : p.At d (e.tree.leaves ++ rest)) (ended : firstKind rest = .semicolon) :
    Found (Stmt.expression e).tree d rest (expression inner p) := by
  have read := (h.start .expressionStatement).child none (finds p rest h (by rw [ended]; rfl))
  rw [Stmt.tree]
  rw [Expr.withRole_none] at read
  exact read.finish

/-- What begins an expression and no declaration is read as an expression. -/
theorem statement_of_expression (starts : p.kind.canStartExpression = true)
    (name : p.kind = .identifier → ¬(p.second.1 = .identifier ∨ p.second.1 = .kwArray))
    (function : p.kind = .kwFunction → p.second.1 ≠ .identifier) :
    statement inner p = expression inner p ∨
      statement inner p = expression inner p.second.2 := by
  unfold statement
  cases kind : p.kind with
  | identifier => exact .inr (if_neg (name kind))
  | kwFunction => exact .inr (if_neg (function kind))
  | number | float | stringStart | lParen | lBrace | kwNot | hash | minus | plus | tilde
  | plusPlus | minusMinus => exact .inl rfl
  | _ =>
      rw [kind] at starts
      cases starts

theorem expression_read {e : Expr} (grouped : e.grouped = true)
    (finds : inner.Finds d Power.comma e) : Reads inner d (.expression e) := by
  intro p rest h ended
  rw [Stmt.tree, leaves_build, leavesAll_cons, leavesAll_nil, List.append_nil] at h
  have starts : p.kind.canStartExpression = true := by
    rw [h.kind]
    exact Expr.first_canStart grouped rest
  have undeclared : p.kind = .identifier →
      ¬(p.second.1 = .identifier ∨ p.second.1 = .kwArray) := by
    intro name
    rw [h.kind] at name
    rw [h.second_kind]
    rcases Expr.second_of_name grouped rest name with last | continues
    · simp [last, ended]
    · rintro (other | other) <;> rw [other] at continues <;> cases continues
  have unnamed : p.kind = .kwFunction → p.second.1 ≠ .identifier := by
    intro function
    rw [h.kind] at function
    rw [h.second_kind, Expr.second_of_function grouped rest function]
    decide
  rcases statement_of_expression starts undeclared unnamed with same | same
  · rw [same]
    exact expression_found finds h ended
  · rw [same]
    exact expression_found finds h.second ended

end Statement

end JassSyntax
