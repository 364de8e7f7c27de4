import JassSyntax.Proofs.Derivation.Grouping
import JassSyntax.Proofs.Derivation.Statements
import JassSyntax.Proofs.Recovery.Unclosed
import JassSyntax.Proofs.Views.Comments

/-!
# Whom a missing closer is blamed on

At the end of input blame moves from the construct that is not closed inwards, through constructs
that are closed by the same keyword, each of which is the last statement of the last body of the one
before. Behind such a statement comes the closer around it. Only branches without a body can stand
in between, which the walk passes over.
-/

namespace JassSyntax

open JassSyntax.Tree Computability Production

variable {m : Tolerance} {kind : NodeKind} {closer : Kind}

/-! ## The parts of a construct -/

namespace Tree

/-- A part of a construct that is no body, no branch, and not what closes it. -/
structure Plain (t : Tree) : Prop where
  bodiless : t.trailingBody? = none
  role : t.role ≠ some .closing

/-- A further branch of a conditional. -/
def IsBranch (t : Tree) : Prop := ∃ kind, t.nodeKind? = some kind ∧ kind.isClause = true

/-- The closer of a construct, or the placeholder for it, behind which nothing comes. -/
def Closes (closer : Kind) (t : Tree) (behind : List Tree) : Prop :=
  (∃ x, t = .token (some .closing) x ∧ x.kind = closer) ∨
    (∃ place, t = .missing (some .closing) closer place) ∧ behind = []

/-- The parts are those of a construct, and its tokens from the closer on are `stop`. -/
inductive Built (kind : NodeKind) (closer : Kind) : List Token → List Tree → Prop
  | intro {x : Token} {heading body branches behind : List Tree} {t : Tree}
      (opens : kind.opening? = some x.kind) (heading_plain : ∀ t ∈ heading, t.Plain)
      (bodies : body ∈ Production.body)
      (further : ∀ c ∈ branches, c.IsBranch ∧ c.role = some .alternative)
      (closes : t.Closes closer behind) (behind_plain : ∀ t ∈ behind, t.Plain) :
      Built kind closer (plainTokens (leavesAll (t :: behind)))
        (.token none x :: heading ++ (body ++ branches ++ t :: behind))

end Tree

/-! ## Constructs have these parts -/

namespace Production

variable {role : Option Role}

theorem plain_tokenOf (passes : Kind → Prop) (other : role ≠ some .closing) :
    Each Tree.Plain (tokenOf passes role) := by
  refine .one ?_
  rintro _ ⟨token, rfl, _⟩
  exact ⟨rfl, other⟩

theorem plain_placeholder (wanted : Kind) (other : role ≠ some .closing) :
    Each Tree.Plain (placeholder wanted role) := by
  refine .one ?_
  rintro _ ⟨place, rfl⟩
  exact ⟨rfl, other⟩

theorem bodiless_of_nodeKind {t : Tree} {k : NodeKind} (node : t.nodeKind? = some k)
    (other : k ≠ .block) (whole : k.isClause = false) : t.trailingBody? = none := by
  cases t with
  | token | missing => rfl
  | node r k' s cs =>
      cases node
      cases k <;> first | rfl | contradiction

theorem plain_node {k : NodeKind} (other : k ≠ .block) (whole : k.isClause = false)
    (outside : role ≠ some .closing) : Each Tree.Plain (node k role) := by
  refine .one ?_
  rintro t ⟨same, _, node, rfl⟩
  exact ⟨bodiless_of_nodeKind node other whole, same ▸ outside⟩

theorem plain_expression (power : Nat) (outside : role ≠ some .closing) :
    Each Tree.Plain (expression m power role) := by
  refine .one ?_
  rintro t ⟨same, shape, _⟩
  refine ⟨?_, same ▸ outside⟩
  cases shape with
  | leaf | absent => rfl
  | error node => exact bodiless_of_nodeKind node (by decide) rfl
  | @node _ k node expression =>
      refine bodiless_of_nodeKind node ?_ ?_ <;> revert expression <;> cases k <;> decide

theorem plain_wanted (wanted : Kind) (outside : role ≠ some .closing) :
    Each Tree.Plain (Production.wanted m wanted role) :=
  have junk : Each Tree.Plain (junk m) := .repaired (plain_node (by decide) rfl (by decide))
  have there : Each Tree.Plain (token wanted role) := plain_tokenOf _ outside
  .add there (.add (.mul junk there) (.repaired (plain_placeholder wanted outside)))

/-- The words are a closer, with what is behind it. -/
def Ending (closer : Kind) (L : Language Tree) : Prop :=
  ∀ w ∈ L, ∃ t behind, w = t :: behind ∧ t.Closes closer behind ∧ ∀ t ∈ behind, t.Plain

theorem ending_closing : Ending closer (closing m closer) := by
  rintro w (⟨t, rfl, x, rfl, same⟩ | ⟨-, t, rfl, place, rfl⟩)
  · exact ⟨_, [], rfl, .inl ⟨x, rfl, same⟩, by simp⟩
  · exact ⟨_, [], rfl, .inr ⟨⟨place, rfl⟩, rfl⟩, by simp⟩

theorem ending_condition {L : Language Tree} (plain : Each Tree.Plain L) :
    Ending closer (token closer (some .closing) * L +
      repaired m (placeholder closer (some .closing))) := by
  rintro w (⟨_, ⟨t, rfl, x, rfl, same⟩, v, mem, rfl⟩ | ⟨-, t, rfl, place, rfl⟩)
  · exact ⟨_, v, rfl, .inl ⟨x, rfl, same⟩, plain v mem⟩
  · exact ⟨_, [], rfl, .inr ⟨⟨place, rfl⟩, rfl⟩, by simp⟩

theorem built_of_mul {first : Kind} {H B E : Language Tree} {w : List Tree}
    (opens : kind.opening? = some first) (heading : Each Tree.Plain H)
    (branches : Each (fun c => c.IsBranch ∧ c.role = some .alternative) B)
    (ending : Ending closer E) (word : w ∈ token first * H * body * B * E) :
    ∃ stop, Built kind closer stop w := by
  obtain ⟨_, ⟨_, ⟨_, ⟨_, ⟨_, rfl, x, rfl, same⟩, h, inH, rfl⟩, b, inBody, rfl⟩, c, inB, rfl⟩, e,
    inE, rfl⟩ := word
  obtain ⟨t, behind, rfl, closes, plain⟩ := ending e inE
  refine ⟨plainTokens (leavesAll (t :: behind)), ?_⟩
  have built := Built.intro (x := x) (by rw [opens, same]) (heading h inH) inBody (branches c inB)
    closes plain
  simpa using built

theorem branch_node {k : NodeKind} (clause : k.isClause = true) :
    Each (fun c => c.IsBranch ∧ c.role = some .alternative) (node k (some .alternative)) := by
  refine .one ?_
  rintro t ⟨same, _, node, rfl⟩
  exact ⟨⟨_, node, clause⟩, same⟩

/-- What a construct is built of. -/
theorem built_of_production {w : List Tree} (closes : kind.closer = some closer)
    (word : w ∈ production m kind) : ∃ stop, Built kind closer stop w := by
  have nothing : Each Tree.Plain 1 := .empty
  have none : Each (fun c => c.IsBranch ∧ c.role = some .alternative) 1 := .empty
  have name : Each Tree.Plain (wanted m .identifier (some .name)) := plain_wanted _ (by decide)
  have qualified : Each Tree.Plain (node .functionName (some .name)) :=
    plain_node (by decide) rfl (by decide)
  have list : Each Tree.Plain parameters := plain_node (by decide) rfl (by decide)
  have condition : Each Tree.Plain (expression m Power.assignment (some .condition)) :=
    plain_expression _ (by decide)
  have keyword (k : Kind) : Each Tree.Plain (wanted m k) := plain_wanted k (by decide)
  cases kind <;> cases closes
  case globalsBlock | loopStatement | doStatement =>
    exact built_of_mul rfl nothing none ending_closing (by simpa [production] using word)
  case structDefinition =>
    exact built_of_mul rfl name none ending_closing (by simpa [production] using word)
  case whileStatement =>
    exact built_of_mul rfl (.mul condition (keyword .kwDo)) none ending_closing
      (by simpa [production, mul_assoc] using word)
  case repeatStatement =>
    exact built_of_mul rfl nothing none (ending_condition condition)
      (by simpa [production] using word)
  case ifStatement =>
    exact built_of_mul rfl (.mul condition (keyword .kwThen))
      (.mul (.star (branch_node rfl)) (.add .empty (branch_node rfl))) ending_closing
      (by simpa [production, mul_assoc] using word)
  case functionDefinition =>
    exact built_of_mul rfl (.mul (.add name qualified) list) none
      ending_closing (by simpa [production, mul_assoc] using word)
  case functionExpression =>
    exact built_of_mul rfl list none ending_closing (by simpa [production] using word)

end Production

/-! ## The last body of a construct -/

namespace Tree

variable {cs left right : List Tree} {b c t : Tree} {stop : List Token}

/-- A branch without a body. -/
structure Idle (c : Tree) : Prop where
  branch : c.IsBranch
  bodiless : ∀ d ∈ c.children, d.nodeKind? ≠ some .block

theorem trailingBodyOf?_eq_none :
    trailingBodyOf? cs = none ↔ ∀ c ∈ cs, c.trailingBody? = none := by
  induction cs with
  | nil => simp [trailingBodyOf?]
  | cons c cs ih => simp [trailingBodyOf?, Option.orElse_eq_or, ih, and_comm]

/-- The last body is that of the last child with one. -/
theorem trailingBodyOf?_split (found : trailingBodyOf? cs = some b) :
    ∃ left c right, cs = left ++ c :: right ∧ c.trailingBody? = some b ∧
      ∀ d ∈ right, d.trailingBody? = none := by
  induction cs with
  | nil => cases found
  | cons c cs ih =>
      rw [trailingBodyOf?] at found
      cases rest : trailingBodyOf? cs with
      | none =>
          rw [rest] at found
          exact ⟨[], c, cs, rfl, found, trailingBodyOf?_eq_none.mp rest⟩
      | some d =>
          rw [rest] at found
          obtain ⟨left, e, right, rfl, ends, none⟩ := ih (rest.trans found)
          exact ⟨c :: left, e, right, rfl, ends, none⟩

theorem leadingTokenOf?_significant : leadingTokenOf? (significant cs) = leadingTokenOf? cs := by
  induction cs with
  | nil => rfl
  | cons c cs ih =>
      rw [leadingTokenOf?, significant, List.filter_cons]
      cases comment : c.isComment with
      | true =>
          rw [View.leadingToken?_of_comment comment]
          exact ih
      | false =>
          rw [if_pos (by rfl), leadingTokenOf?]
          exact congrArg (c.leadingToken? <|> ·) ih

theorem plainTokens_significant (remarked : ∀ c ∈ cs, c.isComment = true → c.Comment) :
    plainTokens (leavesAll (significant cs)) = plainTokens (leavesAll cs) := by
  induction cs with
  | nil => rfl
  | cons c cs ih =>
      have rest := ih fun d mem => remarked d (List.mem_cons_of_mem c mem)
      rw [leavesAll_cons, plainTokens_append, significant, List.filter_cons]
      cases comment : c.isComment with
      | true =>
          have free : plainTokens (leavesAll [c]) = [] := plainTokens_leavesAll fun d mem =>
            List.mem_singleton.mp mem ▸ remarked c List.mem_cons_self comment
          rw [leavesAll_cons, leavesAll_nil, List.append_nil] at free
          rw [free]
          exact rest
      | false =>
          rw [if_pos (by rfl), leavesAll_cons, plainTokens_append]
          exact congrArg _ rest

/-- What is not among the last elements stands in front of them. -/
theorem split_back {xs ys : List Tree} (whole : xs ++ ys = left ++ c :: right) (other : c ∉ ys) :
    ∃ last, xs = left ++ c :: last ∧ right = last ++ ys := by
  rcases List.append_eq_append_iff.mp whole with ⟨more, -, rfl⟩ | ⟨more, rfl, rest⟩
  · exact absurd (by simp) other
  · cases more with
    | nil => exact absurd (rest.subst (motive := (c ∈ ·)) List.mem_cons_self) other
    | cons d last =>
        obtain ⟨rfl, same⟩ := List.cons_eq_cons.mp rest
        exact ⟨last, rfl, same⟩

/-- What is not among the first elements stands behind them. -/
theorem split_front {xs ys : List Tree} (whole : xs ++ ys = left ++ c :: right) (other : c ∉ xs) :
    ∃ first, ys = first ++ c :: right := by
  rcases List.append_eq_append_iff.mp whole with ⟨first, -, rest⟩ | ⟨more, rfl, rest⟩
  · exact ⟨first, rest⟩
  · cases more with
    | nil => exact ⟨[], rest.symm⟩
    | cons d more =>
        obtain ⟨rfl, -⟩ := List.cons_eq_cons.mp rest
        exact absurd (by simp) other

theorem bodiless_of_closes {behind : List Tree} (closes : t.Closes closer behind) :
    t.trailingBody? = none := by
  rcases closes with ⟨x, rfl, -⟩ | ⟨⟨place, rfl⟩, -⟩ <;> rfl

theorem IsBranch.trailingBody? (branch : c.IsBranch) :
    c.trailingBody? = trailingBodyOf? c.children := by
  obtain ⟨k, node, clause⟩ := branch
  cases c with
  | token | missing => cases node
  | node r k' s cs =>
      cases node
      cases k <;> first | rfl | cases clause

theorem trailingBody?_cases (found : c.trailingBody? = some b) :
    c.nodeKind? = some .block ∧ b = c ∨ c.IsBranch ∧ trailingBodyOf? c.children = some b := by
  cases c with
  | token | missing => cases found
  | node r k s cs =>
      cases k
      case block => exact .inl ⟨rfl, (Option.some.inj found).symm⟩
      case elseifClause | elseClause => exact .inr ⟨⟨_, rfl, rfl⟩, found⟩
      all_goals cases found

theorem Idle.of_branch (branch : c.IsBranch) (none : c.trailingBody? = none) : c.Idle := by
  refine ⟨branch, fun d child block => ?_⟩
  have own := trailingBodyOf?_eq_none.mp (branch.trailingBody?.symm.trans none) d child
  cases d with
  | token | missing => cases block
  | node =>
      cases block
      cases own

/-- Among a body and the branches behind it, only branches come after another one of them. -/
theorem branches_behind {body branches first last : List Tree} (bodies : body ∈ Production.body)
    (split : body ++ branches = first ++ c :: last) : ∀ d ∈ last, d ∈ branches := by
  rcases bodies with none | ⟨t, rfl, -⟩
  · rw [show body = [] from none, List.nil_append] at split
    exact fun d mem => split ▸ List.mem_append_right _ (List.mem_cons_of_mem c mem)
  · cases first with
    | nil =>
        obtain ⟨-, rfl⟩ := List.cons_eq_cons.mp split
        exact fun d mem => mem
    | cons e first =>
        obtain ⟨-, same⟩ := List.cons_eq_cons.mp split
        obtain rfl : branches = first ++ c :: last := same
        exact fun d mem => List.mem_append_right _ (List.mem_cons_of_mem c mem)

/-- Behind the last body of a construct stand branches without one, and then the closer. -/
theorem Built.behind (built : Built kind closer stop (significant (left ++ c :: right)))
    (remarked : ∀ d ∈ left ++ c :: right, d.isComment = true → d.Comment)
    (ends : c.trailingBody? ≠ none) (none : ∀ d ∈ right, d.trailingBody? = Option.none) :
    ∃ idle, (∀ d ∈ idle, d ∈ right ∧ d.Idle) ∧
      plainTokens (leavesAll right) = plainTokens (leavesAll idle) ++ stop := by
  have own : c.isComment = false :=
    Bool.eq_false_iff.mpr fun comment => ends (View.trailingBody?_of_comment comment)
  have split : significant (left ++ c :: right) = significant left ++ c :: significant right := by
    simp [significant, own]
  have same : plainTokens (leavesAll (significant right)) = plainTokens (leavesAll right) :=
    plainTokens_significant fun d mem => remarked d (by simp [mem])
  rw [split] at built
  generalize whole : significant left ++ c :: significant right = word at built
  cases built with
  | @intro x heading body branches behind t opens headed bodies further closes plain =>
      have late : c ∉ t :: behind := by
        intro mem
        rcases List.mem_cons.mp mem with rfl | mem
        · exact ends (bodiless_of_closes closes)
        · exact ends (plain c mem).bodiless
      have early : c ∉ Tree.token Option.none x :: heading := by
        intro mem
        rcases List.mem_cons.mp mem with rfl | mem
        · exact ends rfl
        · exact ends (headed c mem).bodiless
      rw [← List.append_assoc] at whole
      obtain ⟨last, inside, tail⟩ := split_back whole.symm late
      obtain ⟨first, middle⟩ := split_front inside early
      refine ⟨last, fun d mem => ?_, ?_⟩
      · have part : d ∈ significant right := by
          rw [tail]
          exact List.mem_append_left _ mem
        have there := (List.mem_filter.mp part).1
        have branch := further d (branches_behind bodies middle d mem)
        exact ⟨there, .of_branch branch.1 (none d there)⟩
      · rw [← same, tail, leavesAll_append, plainTokens_append]

/-- A branch ends with its body, if it has one. -/
theorem IsBranch.split_children (branch : c.IsBranch) (lawful : c.Lawful m) (remarked : c.Remarked)
    (found : trailingBodyOf? c.children = some b) :
    ∃ left right, c.children = left ++ b :: right ∧ b.nodeKind? = some .block ∧
      plainTokens (leavesAll right) = [] := by
  obtain ⟨left, d, right, children, ends, -⟩ := trailingBodyOf?_split found
  obtain ⟨k, node, clause⟩ := branch
  have word := lawful.here.derived k node
  have condition : Each Tree.Plain (expression m Power.assignment (some .condition)) :=
    plain_expression _ (by decide)
  have headed : ∃ heading body, c.parts = heading ++ body ∧ (∀ t ∈ heading, t.Plain) ∧
      body ∈ Production.body := by
    cases k <;> cases clause
    · obtain ⟨heading, first, body, second, same⟩ := word
      exact ⟨heading, body, same.symm, (Each.mul (.mul (plain_tokenOf _ (by decide)) condition)
        (plain_wanted _ (by decide))) heading first, second⟩
    · obtain ⟨heading, first, body, second, same⟩ := word
      exact ⟨heading, body, same.symm, plain_tokenOf _ (by decide) heading first, second⟩
  obtain ⟨heading, body, parts, plain, single⟩ := headed
  have own : d.isComment = false := Bool.eq_false_iff.mpr fun comment =>
    Option.some_ne_none b (ends.symm.trans (View.trailingBody?_of_comment comment))
  have split : heading ++ body = significant left ++ d :: significant right := by
    rw [← parts, Tree.parts, children]
    simp [significant, own]
  have early : d ∉ heading := fun mem =>
    Option.some_ne_none b (ends.symm.trans (plain d mem).bodiless)
  obtain ⟨first, rest⟩ := split_front split early
  have alone : d.nodeKind? = some .block ∧ significant right = [] := by
    rcases single with none | ⟨t, rfl, _, k, block, rfl⟩
    · rw [show body = [] from none] at rest
      simp at rest
    · cases first with
      | nil =>
          obtain ⟨rfl, same⟩ := List.cons_eq_cons.mp rest
          exact ⟨block, same.symm⟩
      | cons e first => simp at rest
  obtain ⟨block, last⟩ := alone
  have same : b = d := by
    rcases trailingBody?_cases ends with ⟨-, same⟩ | ⟨⟨k, other, clause⟩, -⟩
    · exact same
    · rw [block] at other
      cases other
      cases clause
  refine ⟨left, right, same ▸ children, same ▸ block, ?_⟩
  rw [← plainTokens_significant fun e mem =>
    remarked.of_child (c := e) (by rw [children]; simp [mem]) e (self_mem_elements e), last]
  rfl

/-- Behind the last statement of a body stand only comments. -/
theorem lastStatement?_split (block : b.nodeKind? = some .block) (lawful : b.Lawful m)
    (remarked : b.Remarked) (found : b.lastStatement? = some t) :
    ∃ left right, b.children = left ++ t :: right ∧ plainTokens (leavesAll right) = [] := by
  have nodes : Each (fun t => t.isNode = true) (production m .block) := by
    have node (passes : NodeKind → Prop) : Each (fun t => t.isNode = true) (nodeOf passes) := by
      refine .one ?_
      rintro t ⟨-, k, node, -⟩
      rw [isNode, node]
      rfl
    have statement : Each (fun t => t.isNode = true) (statement m) :=
      .add (node _) (.repaired (node _))
    exact .mul statement (.star statement)
  rw [lastStatement?, childNodes, List.filter_filter, List.getLast?_eq_some_iff] at found
  obtain ⟨before, found⟩ := found
  obtain ⟨front, back, children, -, last⟩ := List.filter_eq_append_iff.mp found
  obtain ⟨skipped, right, rfl, -, -, none⟩ := List.filter_eq_cons_iff.mp last
  refine ⟨front ++ skipped, right, by simpa using children, ?_⟩
  refine plainTokens_leavesAll fun d mem => ?_
  have child : d ∈ b.children := by
    rw [children]
    simp [mem]
  refine remarked.of_child child d (self_mem_elements d) ?_
  by_contra plain
  have part : d ∈ b.parts := List.mem_filter.mpr ⟨child, by simp [plain]⟩
  have node := nodes _ (lawful.here.derived .block block) d part
  have passed := List.filter_eq_nil_iff.mp none d mem
  cases d with
  | token | missing => cases node
  | node r k s cs =>
      refine passed ?_
      simpa [nodeKind?, isNode, isComment] using plain

/-- What plays the role of the closer is the closer. -/
theorem Built.of_role (built : Built kind closer stop t.parts) (part : c ∈ t.parts)
    (role : c.role = some .closing) :
    ∃ behind, c.Closes closer behind ∧ stop = plainTokens (leavesAll (c :: behind)) := by
  generalize t.parts = word at built part
  cases built with
  | @intro x heading body branches behind t opens headed bodies further closes plain =>
      simp only [List.cons_append, List.mem_cons, List.mem_append] at part
      rcases part with rfl | part | (part | part) | rfl | part
      · cases role
      · exact absurd role (headed c part).role
      · rcases bodies with none | ⟨d, rfl, same, -⟩
        · rw [show body = [] from none] at part
          cases part
        · rw [List.mem_singleton.mp part, same] at role
          cases role
      · rw [(further c part).2] at role
        cases role
      · exact ⟨behind, closes, rfl⟩
      · exact absurd role (plain c part).role

/-- What is no comment has a lawful tree like its parent. -/
theorem Lawful.of_child (lawful : t.Lawful m) (child : c ∈ t.children)
    (own : c.isComment = false) : c.Lawful m :=
  lawful.of_part c (List.mem_filter.mpr ⟨child, by simp [own]⟩)

theorem not_isComment_of_nodeKind {k : NodeKind} (node : t.nodeKind? = some k)
    (other : k ≠ .blockComment) : t.isComment = false := by
  cases t with
  | token | missing => cases node
  | node => cases node; exact beq_eq_false_iff_ne.mpr other

/-- Behind the last statement of the last body stand branches without a body, and then the
closer. -/
theorem Built.last {u : Tree} {k : NodeKind} (node : t.nodeKind? = some kind)
    (built : Built kind closer stop t.parts) (lawful : t.Lawful m) (remarked : t.Remarked)
    (found : trailingBodyOf? t.children = some b) (last : b.lastStatement? = some u)
    (statement : u.nodeKind? = some k) (other : k ≠ .blockComment) :
    u.Lawful m ∧ u.Remarked ∧ ∃ way idle, Path t way u ∧ (∀ c ∈ idle, c ∈ t.children ∧ c.Idle) ∧
      plainTokens (after way) = plainTokens (leavesAll idle) ++ stop := by
  obtain ⟨left, c, right, children, ends, none⟩ := trailingBodyOf?_split found
  have below : ∀ d ∈ left ++ c :: right, d.Remarked := fun d mem =>
    remarked.of_child (children ▸ mem)
  have ended : c.trailingBody? ≠ Option.none := fun none => by
    rw [ends] at none
    cases none
  obtain ⟨idle, branches, behind⟩ := Built.behind (show Built kind closer stop
    (significant (left ++ c :: right)) from children ▸ built)
    (fun d mem => below d mem d (self_mem_elements d)) ended none
  have inside : c ∈ t.children := by
    rw [children]
    simp
  have own : c.isComment = false :=
    Bool.eq_false_iff.mpr fun comment => ended (View.trailingBody?_of_comment comment)
  have lawfulChild := lawful.of_child inside own
  have remarkedChild := remarked.of_child inside
  have first : Path t [⟨kind, left, c, right⟩] c := .of_children node children
  -- The way to the body, directly or through a branch.
  obtain ⟨way, path, block, lawfulBody, remarkedBody, tokens⟩ : ∃ way, Path c way b ∧
      b.nodeKind? = some .block ∧ b.Lawful m ∧ b.Remarked ∧ plainTokens (after way) = [] := by
    rcases trailingBody?_cases ends with ⟨block, rfl⟩ | ⟨branch, inner⟩
    · exact ⟨[], .here _, block, lawfulChild, remarkedChild, rfl⟩
    · obtain ⟨l, r, split, block, free⟩ :=
        branch.split_children lawfulChild remarkedChild inner
      obtain ⟨kind', node', -⟩ := branch
      have mem : b ∈ c.children := by
        rw [split]
        simp
      exact ⟨[⟨kind', l, b, r⟩], .of_children node' split, block,
        lawfulChild.of_child mem (not_isComment_of_nodeKind block (by decide)),
        remarkedChild.of_child mem, by simpa [after] using free⟩
  obtain ⟨l, r, split, free⟩ := lastStatement?_split block lawfulBody remarkedBody last
  have mem : u ∈ b.children := by
    rw [split]
    simp
  refine ⟨lawfulBody.of_child mem (not_isComment_of_nodeKind statement other),
    remarkedBody.of_child mem, _, idle, first.trans (path.trans (.of_children block split)), ?_, ?_⟩
  · refine fun d part => ⟨?_, (branches d part).2⟩
    rw [children]
    exact List.mem_append_right _ (List.mem_cons_of_mem c (branches d part).1)
  · rw [after_append, after_append, plainTokens_append, plainTokens_append, tokens]
    simpa [after, free] using behind

end Tree

/-! ## Closers that are there -/

theorem View.passesOver_or_mem_trees (v : View) {c : Tree} {cs : List Tree} (mem : c ∈ cs) :
    v.passesOver c = true ∨ v.tree c ∈ v.trees cs := by
  obtain ⟨left, right, rfl⟩ := List.append_of_mem mem
  rw [v.trees_append, v.trees_cons]
  by_cases passed : v.passesOver c = true
  · exact .inl passed
  · rw [if_neg passed]
    exact .inr (List.mem_append_right _ List.mem_cons_self)

namespace Tree

variable {t u c : Tree} {stop : List Token}

/-- Comments play no role among the children of a node. -/
def Unmarked (t : Tree) : Prop :=
  ∀ u ∈ t.elements, ¬u.Comment → ∀ c ∈ u.children, c.isComment = true → c.role = none

theorem Unmarked.of_element (h : t.Unmarked) (mem : u ∈ t.elements) : u.Unmarked :=
  fun _ below => h _ (mem_elements_trans below mem)

theorem Unmarked.of_path {way : List Step} (h : t.Unmarked) (path : Path t way u) : u.Unmarked :=
  h.of_element (mem_elements_iff_path.mpr ⟨way, path⟩)

theorem unmarked_of_grammar (remarked : t.Remarked)
    (plain : ∀ x ∈ (View.grammar.tree t).leaves, x.isTrivia = false) : t.Unmarked := by
  induction t using children_induction with
  | step t ih =>
      cases t with
      | token | missing =>
          intro u mem
          rw [List.mem_singleton.mp mem]
          exact fun _ _ child => by cases child
      | node r k s cs =>
          rw [View.tree] at plain
          have seen : ∀ c ∈ cs, View.grammar.passesOver c = true ∨
              ∀ x ∈ (View.grammar.tree c).leaves, x.isTrivia = false := fun c mem =>
            (View.grammar.passesOver_or_mem_trees mem).imp_right fun there x leaf =>
              plain x (mem_leavesAll.mpr ⟨_, there, leaf⟩)
          intro u mem other c child comment
          rcases mem_elements.mp mem with rfl | ⟨d, below, mem⟩
          · rcases seen c child with passed | free
            · exact View.grammar.passesOver_role passed
            · exact View.grammar.passesOver_role (View.grammar_passesOver_comment
                (remarked.of_child child c (self_mem_elements c) comment) free)
          · rcases seen d below with passed | free
            · have whole := remarked.of_child below d (self_mem_elements d)
                (View.grammar.passesOver_comment passed)
              exact absurd (whole.elements u mem) other
            · exact ih d below (remarked.of_child below) free u mem other c child comment

/-- What a way leads to is lawful if the whole tree is, unless it is a comment. -/
theorem Lawful.of_way {way : List Step} (lawful : t.Lawful m) (remarked : t.Remarked)
    (path : Path t way u) (plain : ¬u.Comment) : u.Lawful m ∧ u.Remarked := by
  induction path with
  | here t => exact ⟨lawful, remarked⟩
  | @down role kind span left right child u way rest ih =>
      have mem : child ∈ left ++ child :: right := by simp
      have below := remarked.of_child (c := child) mem
      exact ih (lawful.of_child mem (rest.isComment_eq_false below plain)) below plain

theorem not_comment_of_closer {k : NodeKind} (node : t.nodeKind? = some k)
    (closes : k.closer = some closer) : ¬t.Comment := by
  rintro ⟨⟩
  · cases node
  · cases node
    cases closes

/-- What plays a role is a part. -/
theorem Unmarked.part {r : Role} (h : t.Unmarked) (plain : ¬t.Comment) (child : c ∈ t.children)
    (role : c.role = some r) : c ∈ t.parts := by
  refine List.mem_filter.mpr ⟨child, ?_⟩
  cases comment : c.isComment with
  | false => rfl
  | true =>
      have none := h t (self_mem_elements t) plain c child comment
      rw [role] at none
      cases none

theorem isClosedBy_cases (closed : t.isClosedBy closer = true) :
    ∃ k, t.nodeKind? = some k ∧ k.closer = some closer ∧
      ∃ c, t.closer? = some c ∧ c.isMissing = false := by
  rw [isClosedBy, Bool.and_eq_true, beq_iff_eq, Option.any_eq_true] at closed
  obtain ⟨closes, c, found, there⟩ := closed
  obtain ⟨k, node, closes⟩ := Option.bind_eq_some_iff.mp closes
  exact ⟨k, node, closes, c, found, by simpa using there⟩

/-- A construct that is closed ends with its closer. -/
theorem Built.closed {k : NodeKind} (built : Built k closer stop t.parts) (h : t.Unmarked)
    (node : t.nodeKind? = some k) (closes : k.closer = some closer) (found : t.closer? = some c)
    (there : c.isMissing = false) :
    ∃ y more, stop = y :: more ∧ .token (some .closing) y ∈ t.children ∧ y.kind = closer := by
  rw [closer?, node] at found
  simp only [Option.bind_eq_bind, Option.bind_some, closes, first?] at found
  obtain ⟨child, role⟩ := List.mem_filter.mp (List.mem_of_mem_head? found)
  have role : c.role = some .closing := by simpa using role
  obtain ⟨behind, shape, tokens⟩ :=
    built.of_role (h.part (not_comment_of_closer node closes) child role) role
  rcases shape with ⟨y, rfl, same⟩ | ⟨⟨place, rfl⟩, -⟩
  · have plain : y.isTrivia = false := by
      rw [Token.isTrivia, same]
      revert closes
      cases k <;> (rintro ⟨⟩ <;> rfl)
    refine ⟨y, plainTokens (leavesAll behind), ?_, child, same⟩
    rw [tokens, leavesAll_cons, plainTokens_append]
    simp [leaves, plainTokens, plain]
  · cases there

/-- A construct that is not closed ends with nothing. -/
theorem Built.open {k : NodeKind} (built : Built k closer stop t.parts) (h : t.Unmarked)
    (node : t.nodeKind? = some k) (closes : k.closer = some closer)
    (gap : t.children.any (isGap closer) = true) : stop = [] := by
  obtain ⟨c, child, gap⟩ := List.any_eq_true.mp gap
  unfold isGap at gap
  split at gap
  · next wanted place =>
    obtain ⟨behind, shape, tokens⟩ :=
      built.of_role (h.part (not_comment_of_closer node closes) child rfl) rfl
    rcases shape with ⟨y, other, -⟩ | ⟨-, rfl⟩
    · cases other
    · exact tokens
  · cases gap

end Tree

/-! ## Blame -/

/-- From the tree, whose tokens from its closer on are `stop`, the span is blamed for the lack of a
closer: it is that of the opening keyword, or the span is blamed from a construct inside, which is
closed by the same keyword, and behind which nothing stands in front of `stop` but branches without
a body. -/
inductive Tree.Blames (closer : Kind) : Tree → List Token → Span → Prop
  | opening {t : Tree} {kind : NodeKind} {x : Token} {rest : List Tree} {stop : List Token}
      (node : t.nodeKind? = some kind) (first : t.parts = .token none x :: rest)
      (opens : kind.opening? = some x.kind) : Blames closer t stop x.span
  | inward {t u : Tree} {way : List Step} {kind : NodeKind} {idle : List Tree} {y : Token}
      {stop more : List Token} {span : Span} (path : Path t way u)
      (behind : plainTokens (after way) = plainTokens (leavesAll idle) ++ stop)
      (branches : ∀ c ∈ idle, c ∈ t.children ∧ c.Idle)
      (node : u.nodeKind? = some kind) (closes : kind.closer = some closer)
      (closed : .token (some .closing) y ∈ u.children) (same : y.kind = closer)
      (inner : Blames closer u (y :: more) span) : Blames closer t stop span

/-- All that the walk knows about a construct that it has come to. -/
structure Suspect.At (s : Suspect) (m : Tolerance) (closer : Kind) (t : Tree) (stop : List Token) :
    Prop where
  lawful : t.Lawful m
  remarked : t.Remarked
  unmarked : t.Unmarked
  node : ∃ k, t.nodeKind? = some k ∧ k.closer = some closer ∧ Built k closer stop t.parts
  opener : ∃ x, t.firstToken? = some x ∧ s.opener = x.span
  body : s.body = trailingBodyOf? t.children

namespace Tree

variable {t : Tree} {stop : List Token}

/-- The opening keyword comes first. -/
theorem Built.firstToken? {k : NodeKind} (built : Built k closer stop t.parts) :
    ∃ x rest, t.parts = .token none x :: rest ∧ k.opening? = some x.kind ∧
      t.firstToken? = some x := by
  have first : t.firstToken? = leadingTokenOf? t.parts := leadingTokenOf?_significant.symm
  have plain : ∀ c ∈ t.parts, c.isComment = false := fun c part => by
    simpa using (List.mem_filter.mp part).2
  rw [first]
  generalize t.parts = word at built plain
  cases built with
  | @intro x heading body branches behind t opens headed bodies further closes =>
      have significant : x.isTrivia = false := plain (.token none x) List.mem_cons_self
      exact ⟨x, _, rfl, opens, by simp [leadingTokenOf?, leadingToken?, significant]⟩

end Tree

namespace Suspect

variable {s : Suspect} {t : Tree} {stop : List Token}

theorem At.blames (h : s.At m closer t stop) : t.Blames closer stop s.opener := by
  obtain ⟨k, node, -, built⟩ := h.node
  obtain ⟨x, begins, span⟩ := h.opener
  obtain ⟨y, rest, parts, opens, first⟩ := built.firstToken?
  rw [begins] at first
  cases first
  exact span ▸ .opening node parts opens

/-- Suspicion stays where it is or moves to a construct that is blamed as well. -/
theorem At.inward (h : s.At m closer t stop) : (s.inward closer).1 = s ∨
    ∃ u stop', (s.inward closer).1.At m closer u stop' ∧
      ∀ span, u.Blames closer stop' span → t.Blames closer stop span := by
  unfold Suspect.inward
  split
  · next u found =>
    split
    · next closed =>
      right
      obtain ⟨b, body, last⟩ := Option.bind_eq_some_iff.mp found
      obtain ⟨k, node, -, built⟩ := h.node
      obtain ⟨k', statement, closes, c, ends, there⟩ := isClosedBy_cases closed
      obtain ⟨lawful, remarked, way, idle, path, branches, behind⟩ := built.last node h.lawful
        h.remarked (h.body ▸ body) last statement (by rintro rfl; cases closes)
      obtain ⟨stop', built'⟩ := built_of_production closes (lawful.here.derived k' statement)
      obtain ⟨x, rest, -, -, first⟩ := built'.firstToken?
      have unmarked := h.unmarked.of_path path
      obtain ⟨y, more, rfl, taken, same⟩ := built'.closed unmarked statement closes ends there
      refine ⟨u, _, ⟨lawful, remarked, unmarked, ⟨k', statement, closes, built'⟩, ⟨x, first, ?_⟩,
        rfl⟩, fun span inner => .inward path behind branches statement closes taken same inner⟩
      rw [first]
      rfl
    · exact .inl rfl
  · exact .inl rfl

end Suspect

/-- Whom the walk blames is blamed. -/
theorem Suspect.At.blamed {t : Tree} {stop : List Token} {opener : Span}
    (h : Suspect.At ⟨opener, trailingBodyOf? t.children⟩ m closer t stop) :
    t.Blames closer stop (blamed opener t.children closer) := by
  let Within (s : Suspect) : Prop := ∃ u stop', s.At m closer u stop' ∧
    ∀ span, u.Blames closer stop' span → t.Blames closer stop span
  have onward (s : Suspect) (within : Within s) : Within (s.inward closer).1 := by
    obtain ⟨u, stop', here, outward⟩ := within
    rcases here.inward with same | ⟨v, stop'', there, inner⟩
    · exact same.symm ▸ ⟨u, stop', here, outward⟩
    · exact ⟨v, stop'', there, fun span blames => outward span (inner span blames)⟩
  have done (s : Suspect) (within : Within s) : t.Blames closer stop s.opener := by
    obtain ⟨u, stop', here, outward⟩ := within
    exact outward _ here.blames
  exact Loop.run_rule (P := Within) (Q := fun s => t.Blames closer stop s.opener)
    (fun s within _ => onward s within) (fun s within _ => done _ (onward s within))
    (fun s within _ _ => done _ (onward s within)) ⟨t, stop, h, fun _ blames => blames⟩

/-! ## Programs -/

namespace Program

theorem unmarked_parseWithin (limit : Nat) (tokens : List Token) :
    (parseWithin limit tokens).1.Unmarked := by
  refine unmarked_of_grammar (remarked_parseWithin limit tokens) fun x leaf => ?_
  rw [← (parseWithin_alike limit (alike_plain tokens)).1] at leaf
  exact plain_leaves limit tokens x (View.leaves_grammar_subset _ leaf)

/-- At the end of input nothing stands behind a construct. -/
theorem after_of_found {limit : Nat} {tokens : List Token} {site : Site} {t : Tree}
    (path : Path (parseWithin limit tokens).1 site.way t) (found : site.found = .eof) :
    plainTokens (after site.way) = [] := by
  cases behind : plainTokens (after site.way) with
  | nil => rfl
  | cons x rest =>
      rw [Site.found, Site.foundBefore, behind] at found
      have mem : x ∈ (parseWithin limit tokens).1.leaves := by
        have part : x ∈ plainTokens (after site.way) := behind ▸ List.mem_cons_self
        rw [path.leaves]
        exact List.mem_append_right _ (List.mem_append_right _ (List.mem_filter.mp part).1)
      rw [leaves_parseWithin] at mem
      have other := List.all_eq_true.mp List.all_takeWhile x mem
      simp [show x.kind = .eof from found] at other

/-- **Blame moves inwards only through constructs that end where the outer one does.** The errors
about missing closers are those about the constructs that lack them, one for each, in the order in
which they end. At the end of input nothing stands behind such a construct, and its own opening
keyword is blamed, or that of a construct at the end of it, if branches without a body are passed
over. -/
theorem parse_blames (tokens : List Token) :
    (parse tokens).2.filter (fun e => e.kind == .missingCloser) =
        (parse tokens).1.unclosed.map Site.error ∧
      ∀ site ∈ (parse tokens).1.unclosed, site.error.found = .eof →
        ∃ t, Path (parse tokens).1 site.way t ∧ t.nodeKind? = some site.kind ∧
          t.children = site.children ∧ plainTokens (after site.way) = [] ∧
          t.Blames site.closer [] site.error.span := by
  refine ⟨(parseWithin_reports maxDepth tokens).1, fun site mem found => ?_⟩
  obtain ⟨t, path, node, children, closes, gap⟩ := mem_unclosed.mp mem
  obtain ⟨lawful, remarked⟩ :=
    (parseWithin_lawful (m := .full) maxDepth tokens trivial).of_way
      (remarked_parseWithin maxDepth tokens) path (not_comment_of_closer node closes)
  have unmarked := (unmarked_parseWithin maxDepth tokens).of_path path
  obtain ⟨stop, built⟩ := built_of_production closes (lawful.here.derived site.kind node)
  obtain rfl := built.open unmarked node closes (children ▸ gap)
  obtain ⟨x, -, -, -, first⟩ := built.firstToken?
  have opener : site.opener = x.span := by
    rw [Site.opener, ← children, show leadingTokenOf? t.children = some x from first]
    rfl
  have span : site.error.span = blamed x.span t.children site.closer := by
    rw [← opener, children]
    exact if_pos found
  have start : Suspect.At ⟨x.span, trailingBodyOf? t.children⟩ .full site.closer t [] :=
    ⟨lawful, remarked, unmarked, ⟨site.kind, node, closes, built⟩, ⟨x, first, rfl⟩, rfl⟩
  exact ⟨t, path, node, children, after_of_found path found, span ▸ start.blamed⟩

end Program

end JassSyntax
