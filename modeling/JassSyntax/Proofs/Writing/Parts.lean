import JassSyntax.Proofs.Writing.Openings

/-!
# Reading written parts

What a level has to read for the constructs around it to be read: expressions and bodies. From that
follow the parts that several constructs share, which are bodies with their closers, parameters,
strings and tables.
-/

namespace JassSyntax

open JassSyntax.Tree Abstract

namespace Level

/-- The level reads the expression as it is meant, unless the words after it continue it. -/
def Finds (inner : Level) (d power : Nat) (e : Expr) : Prop :=
  ∀ p rest, p.At d (e.tree.leaves ++ rest) → (firstKind rest).continues power = false →
    Found e.tree d rest (inner.binding power p)

/-- The level reads the body as it is meant, up to one of its terminators. -/
def FindsBody (inner : Level) (d : Nat) (ss : List Stmt) : Prop :=
  ∀ k cs f terminators rest,
    Frame.Holds k cs d (leavesAll (bodyPart (bodyTrees ss)) ++ rest) f →
    (∀ k ∈ terminators, k.isClosingKeyword = true) → firstKind rest ∈ terminators →
    (inner.body terminators f).Holds k (cs ++ bodyPart (bodyTrees ss)) d rest

end Level

variable {inner : Level} {d : Nat} {rest : List Token} {p : Parser}

/-! ## Bodies -/

namespace Frame.Holds

variable {k : NodeKind} {cs cs' : List Tree} {ws : List Token} {f : Frame}

theorem within (h : f.Holds k cs d ws) {closers : List Kind}
    (closing : ∀ k ∈ closers, k.isClosingKeyword = true) (read : Frame → Frame)
    (found : ∀ g, Frame.Holds k cs d ws g → (read g).Holds k cs' d rest) :
    (f.within closers read).Holds k cs' d rest :=
  (found _ (h.enter closing)).leave _

theorem closedBody {ss : List Stmt} {closer : Kind} (closes : k.closer = some closer)
    (h : f.Holds k cs d (leavesAll (bodyPart (bodyTrees ss)) ++ .spelled closer :: rest))
    (body : inner.FindsBody d ss) :
    (f.closedBody inner).Holds k
      (cs ++ bodyPart (bodyTrees ss) ++ [mark closer (some .closing)]) d rest := by
  have closers : f.kind.closer.toList = [closer] := by rw [h.kind, closes, Option.toList_some]
  unfold Frame.closedBody
  rw [closers]
  have closing : ∀ k ∈ [closer], k.isClosingKeyword = true := by
    intro k mem
    rw [List.mem_singleton.mp mem]
    exact NodeKind.isClosingKeyword_of_closer closes
  have inside := h.within closing _ fun g holds =>
    body k cs g [closer] (.spelled closer :: rest) holds closing List.mem_cons_self
  exact inside.close closes

end Frame.Holds

/-! ## Parameters -/

namespace Frame

theorem parameter_found (param : Parameter) (h : p.At d (param.tree.leaves ++ rest))
    (ended : firstKind rest ≠ .identifier) : Found param.tree d rest (parameter p) := by
  obtain ⟨type, name⟩ := param
  cases type with
  | none =>
      have words : p.At d (.spelled .identifier name :: rest) := by
        simpa [Parameter.tree] using h
      rcases parameter_cases p with ⟨typed, _⟩ | ⟨_, e⟩
      · exact absurd (words.second_kind.symm.trans typed) ended
      · rw [e]
        have begun : Holds .parameter [] d (.spelled .identifier name :: rest)
            { p.start .parameter with parser := p.second.2 } := ⟨rfl, rfl, words.second⟩
        exact (begun.bump (some .name)).finish
  | some type =>
      have words : p.At d (.spelled .identifier type :: .spelled .identifier name :: rest) := by
        simpa [Parameter.tree] using h
      rcases parameter_cases p with ⟨_, e⟩ | ⟨untyped, _⟩
      · rw [e]
        exact (((words.start .parameter).bump (some .type)).bump (some .name)).finish
      · exact absurd words.second_kind untyped

theorem first_parameter (param : Parameter) :
    firstKind (param.tree.leaves ++ rest) = .identifier := by
  obtain ⟨type, name⟩ := param
  cases type <;> simp [Parameter.tree]

theorem parameterList_found (ps : List Parameter) (h : p.At d ((parameterTree ps).leaves ++ rest)) :
    Found (parameterTree ps) d rest (parameterList p) := by
  have words : p.At d (.spelled .lParen ::
      (leavesAll (listed (ps.map Parameter.tree)) ++ .spelled .rParen :: rest)) := by
    simpa [parameterTree] using h
  obtain ⟨opened, demanded⟩ := (words.start .parameters).demand .lParen rfl none
    (.unexpected .lParen)
  unfold parameterList
  simp only [demanded, if_true]
  have items : (Frame.parameterItems ((p.start .parameters).demand .lParen none
      (.unexpected .lParen)).1).Holds .parameters
        (mark .lParen :: listed (ps.map Parameter.tree)) d (.spelled .rParen :: rest) := by
    cases ps with
    | nil =>
        unfold parameterItems
        have stop := opened.current
        rw [loop_of_stop] <;> simp [stop]
        exact opened
    | cons param ps =>
        refine Holds.loop_listed (by simp) ?_ opened
        intro u mem g cs ws holds after
        have mem : u ∈ (param :: ps).map Parameter.tree := mem
        obtain ⟨param, _, rfl⟩ := List.mem_map.mp mem
        have name := holds.current.trans (first_parameter param)
        refine ⟨_, holds.child none (parameter_found param holds.parser ?_), if_pos name⟩
        rcases after with comma | last
        · rw [comma]
          decide
        · simp [last]
  exact (items.expect _ rfl).finish

theorem Holds.parameters {k : NodeKind} {cs : List Tree} {f : Frame} {ps : List Parameter}
    (h : f.Holds k cs d ((parameterTree ps).leaves ++ rest)) :
    f.parameters.Holds k (cs ++ [(parameterTree ps).withRole (some .parameters)]) d rest := by
  rw [parameters_eq]
  exact h.child _ (parameterList_found ps h.parser)

end Frame

namespace Expression

/-! ## Strings -/

theorem string_found (s : Quoted) (h : p.At d (s.tree.leaves ++ rest)) :
    Found s.tree d rest (string p) := by
  obtain ⟨opening, content, closing⟩ := s
  unfold string
  cases content with
  | none =>
      have words : p.At d (.spelled .stringStart opening ::
          .spelled .stringEnd closing :: rest) := by
        simpa [Quoted.tree] using h
      have opened := (words.start .string).bump (some .opening)
      dsimp only
      rw [if_neg (by simp [opened.current])]
      exact (opened.expect _ rfl (some .closing)).finish
  | some content =>
      have words : p.At d (.spelled .stringStart opening :: .spelled .stringContent content ::
          .spelled .stringEnd closing :: rest) := by
        simpa [Quoted.tree] using h
      have opened := (words.start .string).bump (some .opening)
      dsimp only
      rw [if_pos (by rw [opened.current]; rfl)]
      exact ((opened.bump (some .content)).expect _ rfl (some .closing)).finish

/-! ## Tables -/

/-- The level reads the parts of the field as they are meant. -/
def FindsField (inner : Level) (d : Nat) : Field → Prop
  | .value e | .named _ e => inner.Finds d (Power.assignment + 1) e
  | .keyed key e => inner.Finds d Power.assignment key ∧ inner.Finds d (Power.assignment + 1) e

def FindsFields (inner : Level) (d : Nat) : Fields → Prop
  | .none => True
  | .last f => FindsField inner d f
  | .more f _ rest => FindsField inner d f ∧ FindsFields inner d rest

/-- What follows a field in a table. -/
def endsField (k : Kind) : Bool :=
  match k with
  | .comma | .semicolon | .rBrace => true
  | _ => false

theorem not_continues_of_endsField {k : Kind} (h : endsField k = true) :
    k.continues (Power.assignment + 1) = false := by
  revert h
  cases k <;> decide

theorem first_field {field : Field} (grouped : field.grouped = true) :
    endsField (firstKind (field.tree.leaves ++ rest)) = false := by
  cases field with
  | value e =>
      simp only [Field.grouped, Bool.and_eq_true] at grouped
      have starts := Expr.first_canStart grouped.2 rest
      simp only [Field.tree, leaves_build, leavesAll_cons, leaves_withRole, leavesAll_nil,
        List.append_nil]
      revert starts
      cases firstKind (e.tree.leaves ++ rest) <;> decide
  | named key e => simp [Field.tree, endsField]
  | keyed key e => simp [Field.tree, endsField]

theorem tableKey_of_name {f : Frame} (name : f.current = .identifier)
    (equals : f.parser.second.1 = .equals) :
    tableKey inner f = ((f.bump (some .key)).bump, true) := by
  have same : f.parser.second.2 = f.parser :=
    Parser.second_of_ne_eof (by rw [equals]; decide)
  unfold tableKey
  rw [name, Frame.second_eq, same]
  dsimp only
  rw [if_pos equals]

theorem tableKey_of_bracket {f : Frame} (bracket : f.current = .lBracket) :
    tableKey inner f =
      (((f.bump.child (some .key) inner.expression).expect .rBracket).expect .equals, true) := by
  unfold tableKey
  rw [bracket]

variable (inner) in
/-- A field without a key begins with its value. -/
theorem tableKey_of_value {ws : List Token} {f : Frame} (h : f.Holds .field [] d ws)
    (starts : (firstKind ws).canStartExpression = true)
    (unnamed : firstKind ws = .identifier → firstKind ws.tail ≠ .equals) :
    (tableKey inner f).2 = true ∧ (tableKey inner f).1.Holds .field [] d ws := by
  rw [← h.current] at starts unnamed
  unfold tableKey
  split
  · rename_i bracket
    rw [bracket] at starts
    cases starts
  · rename_i name
    refine ⟨rfl, ?_⟩
    rw [Frame.second_eq]
    dsimp only
    rw [if_neg fun equals => unnamed name (h.parser.second_kind.symm.trans equals)]
    exact ⟨h.kind, h.children, h.parser.second⟩
  · exact ⟨starts, h⟩

theorem field_found {field : Field} (grouped : field.grouped = true)
    (finds : FindsField inner d field) (h : p.At d (field.tree.leaves ++ rest))
    (after : endsField (firstKind rest) = true) :
    (tableKey inner (p.start .field)).2 = true ∧
      Found field.tree d rest ((tableKey inner (p.start .field)).1.child (some .value)
        (inner.binding (Power.assignment + 1))).finish := by
  have ended := not_continues_of_endsField after
  cases field with
  | value e =>
      simp only [Field.grouped, Bool.and_eq_true] at grouped
      have words : p.At d (e.tree.leaves ++ rest) := by simpa [Field.tree] using h
      obtain ⟨begins, key⟩ := tableKey_of_value inner (words.start .field)
        (Expr.first_canStart grouped.2 rest) (Expr.unnamed grouped.2 rest grouped.1 fun equals => by
          rw [equals] at after
          cases after)
      exact ⟨begins, (key.child _ (finds _ rest key.parser ended)).finish⟩
  | named key e =>
      have words : p.At d (.spelled .identifier key :: .spelled .equals ::
          (e.tree.leaves ++ rest)) := by
        simpa [Field.tree] using h
      have begun := words.start .field
      rw [tableKey_of_name begun.current words.second_kind]
      have named := (begun.bump (some .key)).bump
      exact ⟨rfl, (named.child _ (finds _ rest named.parser ended)).finish⟩
  | keyed key e =>
      have words : p.At d (.spelled .lBracket :: (key.tree.leaves ++ .spelled .rBracket ::
          .spelled .equals :: (e.tree.leaves ++ rest))) := by
        simpa [Field.tree] using h
      have begun := words.start .field
      rw [tableKey_of_bracket begun.current]
      have opened := begun.bump
      have key := opened.child (some .key) (finds.1 _ _ opened.parser rfl)
      have keyed := (key.expect .rBracket rfl).expect .equals rfl
      exact ⟨rfl, (keyed.child _ (finds.2 _ rest keyed.parser ended)).finish⟩

/-- A field is read, and what follows it decides whether another may come. -/
theorem tableStep_found {field : Field} (grouped : field.grouped = true)
    (finds : FindsField inner d field) {k : NodeKind} {cs : List Tree} {f : Frame}
    (h : f.Holds k cs d (field.tree.leaves ++ rest)) (after : endsField (firstKind rest) = true) :
    ∃ g : Frame, g.Holds k (cs ++ [field.tree]) d rest ∧ tableStep inner f =
      if g.current = .comma ∨ g.current = .semicolon then (g.bump, true) else (g, false) := by
  obtain ⟨begins, found⟩ := field_found grouped finds h.parser after
  have next := h.put none found
  rw [Field.withRole_none] at next
  refine ⟨_, next, ?_⟩
  have first : endsField f.current = false := by rw [h.current, first_field grouped]
  unfold tableStep
  rw [if_neg]
  · simp only [begins, if_true]
  · rintro (comma | semicolon)
    · rw [comma] at first
      cases first
    · rw [semicolon] at first
      cases first

/-- Fields are read one by one, each with the separator after it, up to the closing brace. -/
theorem fields_found : ∀ {fields : Fields} {k : NodeKind} {cs : List Tree} {f : Frame},
    fields.grouped = true → FindsFields inner d fields →
    f.Holds k cs d (leavesAll fields.trees ++ .spelled .rBrace :: rest) →
    (f.loop (tableStep inner)).Holds k (cs ++ fields.trees) d (.spelled .rBrace :: rest)
  | .none, k, cs, f, _, _, h => by
      have words : f.Holds k cs d (.spelled .rBrace :: rest) := by simpa [Fields.trees] using h
      have stop : tableStep inner f = (f, false) := by
        unfold tableStep tableKey
        rw [if_neg (by simp [words.current])]
        rw [show (f.parser.start .field).current = .rBrace from words.current]
        rfl
      rw [Frame.loop_of_stop (by rw [stop]), stop]
      simpa [Fields.trees] using words
  | .last field, k, cs, f, grouped, finds, h => by
      rw [Fields.grouped] at grouped
      have words : f.Holds k cs d (field.tree.leaves ++ .spelled .rBrace :: rest) := by
        simpa [Fields.trees] using h
      obtain ⟨g, next, stop⟩ := tableStep_found grouped finds words rfl
      rw [if_neg (by simp [next.current])] at stop
      rw [Frame.loop_of_stop (by rw [stop]), stop]
      simpa [Fields.trees] using next
  | .more field separator more, k, cs, f, grouped, finds, h => by
      rw [Fields.grouped, Bool.and_eq_true] at grouped
      have words : f.Holds k cs d (field.tree.leaves ++ .spelled separator.kind ::
          (leavesAll more.trees ++ .spelled .rBrace :: rest)) := by
        simpa [Fields.trees] using h
      obtain ⟨g, next, goes⟩ :=
        tableStep_found grouped.1 finds.1 words (by cases separator <;> rfl)
      rw [if_pos (by rw [next.current]; cases separator <;> simp [Separator.kind])] at goes
      have after := next.bump
      rw [words.loop_next goes after (by simp only [List.length_cons, List.length_append]; omega)]
      have all := fields_found grouped.2 finds.2 after
      simpa [Fields.trees, mark] using all

theorem table_found {fields : Fields} (grouped : fields.grouped = true)
    (finds : FindsFields inner d fields)
    (h : p.At d ((Expr.table fields).tree.leaves ++ rest)) :
    Found (Expr.table fields).tree d rest (table inner p) := by
  have words : p.At d (.spelled .lBrace ::
      (leavesAll fields.trees ++ .spelled .rBrace :: rest)) := by
    simpa [Expr.tree] using h
  have read := fields_found grouped finds (words.start .tableConstructor).bump
  have found := (read.expect .rBrace rfl).finish
  rw [Expr.tree]
  exact found

/-! ## Brackets and functions -/

theorem parenthesized_found {e : Expr} (finds : inner.Finds d Power.comma e)
    (h : p.At d ((Expr.group e).tree.leaves ++ rest)) :
    Found (Expr.group e).tree d rest (parenthesized inner p) := by
  have words : p.At d (.spelled .lParen :: (e.tree.leaves ++ .spelled .rParen :: rest)) := by
    simpa [Expr.tree] using h
  have opened := (words.start .parenthesizedExpression).bump
  have read := opened.child (some .value) (finds _ _ opened.parser rfl)
  have found := (read.expect .rParen rfl).finish
  rw [Expr.tree]
  exact found

theorem function_found {ps : List Parameter} {ss : List Stmt} (body : inner.FindsBody d ss)
    (h : p.At d ((Expr.function ps ss).tree.leaves ++ rest)) :
    Found (Expr.function ps ss).tree d rest (function inner p) := by
  have words : p.At d (.spelled .kwFunction :: ((parameterTree ps).leaves ++
      (leavesAll (bodyPart (bodyTrees ss)) ++ .spelled .kwEnd :: rest))) := by
    simpa [Expr.tree, closed] using h
  have opened := (words.start .functionExpression).bump.parameters
  have found := (opened.closedBody rfl body).finish
  rw [Expr.tree, closed]
  exact found

/-! ## Arguments -/

/-- Expressions with commas between them, each in a role. -/
theorem expressions_found {k : NodeKind} {cs : List Tree} {f : Frame} {e : Expr} {es : List Expr}
    (role : Option Role) (finds : ∀ x ∈ e :: es, inner.Finds d Power.assignment x)
    (ended : (firstKind rest).continues Power.comma = false)
    (h : f.Holds k cs d
      (leavesAll (listed ((e :: es).map fun x => x.tree.withRole role)) ++ rest)) :
    (f.commaSeparated fun f => f.child role inner.expression).Holds k
      (cs ++ listed ((e :: es).map fun x => x.tree.withRole role)) d rest := by
  have last : firstKind rest ≠ .comma := by
    intro comma
    rw [comma] at ended
    cases ended
  refine Frame.Holds.commaSeparated last ?_ h
  intro u mem g cs ws holds after
  have mem : u ∈ (e :: es).map fun x => x.tree.withRole role := mem
  obtain ⟨x, here, rfl⟩ := List.mem_map.mp mem
  rw [leaves_withRole] at holds
  refine holds.child role (finds x here _ ws holds.parser ?_)
  rcases after with comma | same
  · rw [comma]
    rfl
  · rw [same]
    exact Kind.not_continues_of_le ended (by decide)

theorem values_found {es : List Expr} (finds : ∀ e ∈ es, inner.Finds d Power.assignment e)
    (grouped : groupedAll es = true)
    (h : p.At d ((Arguments.values es).tree.leaves ++ rest)) :
    Found (Arguments.values es).tree d rest (arguments inner p) := by
  have words : p.At d (.spelled .lParen :: (leavesAll (listed (trees es)) ++
      .spelled .rParen :: rest)) := by
    simpa [Arguments.tree] using h
  have opened := (words.start .arguments).bump
  have kind : p.kind = .lParen := words.kind
  rw [Arguments.tree]
  unfold arguments
  rw [kind]
  dsimp only
  cases es with
  | nil =>
      have read : ((p.start .arguments).bump).Holds .arguments [mark .lParen] d
          (.spelled .rParen :: rest) := opened
      rw [if_pos (by rw [read.current]; rfl)]
      exact (read.expect _ rfl).finish
  | cons e es =>
      rw [groupedAll, Bool.and_eq_true, Bool.and_eq_true] at grouped
      have same : trees (e :: es) = (e :: es).map fun x => x.tree.withRole none := by
        rw [trees_eq_map]
        exact List.map_congr_left fun x _ => x.withRole_none.symm
      rw [same] at opened ⊢
      rw [if_neg]
      · have read := expressions_found none finds rfl opened
        exact (read.expect _ rfl).finish
      · intro closes
        have starts := Expr.first_listed grouped.1.2 (.spelled .rParen :: rest) es none
        rw [← opened.current, closes] at starts
        cases starts

/-- The level reads what is in the arguments as it is meant. -/
def FindsArguments (inner : Level) (d : Nat) : Arguments → Prop
  | .values es => ∀ e ∈ es, inner.Finds d Power.assignment e
  | .string _ => True
  | .table fields => FindsFields inner d fields

theorem arguments_found {args : Arguments} (grouped : args.grouped = true)
    (finds : FindsArguments inner d args) (h : p.At d (args.tree.leaves ++ rest)) :
    Found args.tree d rest (arguments inner p) := by
  cases args with
  | values es => exact values_found finds grouped h
  | string s =>
      have kind : p.kind = .stringStart := by simp [h.kind, Arguments.tree, Quoted.tree]
      unfold arguments
      rw [kind]
      exact string_found s h
  | table fields =>
      have kind : p.kind = .lBrace := by simp [h.kind, Arguments.tree]
      unfold arguments
      rw [kind]
      rw [Arguments.grouped] at grouped
      have same : (Arguments.table fields).tree = (Expr.table fields).tree := by
        rw [Arguments.tree, Expr.tree]
      rw [same] at h ⊢
      exact table_found grouped finds h

end Expression

end JassSyntax
