import JassSyntax.Proofs.Derivation.Production
import JassSyntax.Proofs.Reading.Progress
import JassSyntax.Proofs.Reading.Tidy

/-!
# Building nodes by their productions

`Frame.Builds` says of a node under construction that its children so far are a word of a language.
Each move of a frame has one rule, which says what language it leads to, so a construct is a
derivation as soon as its chain of rules ends in the production of its kind.
-/

namespace JassSyntax

open Computability Production

variable {m : Tolerance}

/-! ## Well-built trees -/

namespace Tree

/-- A tree that is there, with children that its kind may have. -/
structure WellBuilt (m : Tolerance) (t : Tree) : Prop where
  present : m = .clean → t.isMissing = false
  derived : ∀ kind, t.nodeKind? = some kind → t.parts ∈ production m kind

/-- The tree and all trees below it are well built, comments aside. -/
def Lawful (m : Tolerance) (t : Tree) : Prop := t.Everywhere (WellBuilt m)

/-- A lawful tree of a class that is no comment. -/
structure Fits (m : Tolerance) (C : Tree → Prop) (t : Tree) : Prop where
  shape : C t
  significant : t.isComment = false
  lawful : t.Lawful m

variable {t : Tree}

theorem Lawful.withRole (h : t.Lawful m) (role : Option Role) : (t.withRole role).Lawful m := by
  refine .intro ⟨fun clean => ?_, fun kind node => ?_⟩ fun c part => ?_
  · rw [isMissing_withRole]
    exact h.here.present clean
  · rw [nodeKind?_withRole] at node
    rw [parts_withRole]
    exact h.here.derived kind node
  · rw [parts_withRole] at part
    exact h.of_part c part

/-- A tree without children is lawful, unless it stands for what is not there. -/
theorem lawful_token (role : Option Role) (token : Token) : (Tree.token role token).Lawful m :=
  .intro ⟨fun _ => rfl, fun _ node => by cases node⟩ fun _ part => by cases part

theorem lawful_missing (repairs : m ≠ .clean) (role : Option Role) (kind : Kind)
    (position : Position) : (Tree.missing role kind position).Lawful m :=
  .intro ⟨fun clean => absurd clean repairs, fun _ node => by cases node⟩
    fun _ part => by cases part

theorem Fits.imp {C D : Tree → Prop} (h : t.Fits m C) (sub : C t → D t) : t.Fits m D :=
  ⟨sub h.shape, h.significant, h.lawful⟩

/-- No production makes a comment. -/
theorem isComment_of_mem_production {kind : NodeKind} (node : t.nodeKind? = some kind)
    (derived : t.parts ∈ production m kind) : t.isComment = false := by
  cases t with
  | token | missing => cases node
  | node role k span children =>
      cases node
      cases kind
      case blockComment => exact absurd derived (Language.notMem_zero _)
      all_goals rfl

end Tree

open JassSyntax.Tree (significant significant_singleton significant_of_comments)

/-! ## What is tolerated -/

theorem Tolerance.Admits.repairs {p : Parser} {span : Span} {c : Complaint}
    (admits : m.Admits (p.complainAt span c).errors.toList) : m ≠ .clean := by
  rintro rfl
  simp [Tolerance.Admits, Parser.complainAt] at admits

/-- Only what tolerates everything tolerates nesting beyond the limit. -/
theorem Tolerance.Admits.eq_full {p : Parser} {limit : Nat}
    (admits : m.Admits (Level.complainTooDeep limit p).errors.toList) : m = .full := by
  obtain ⟨e, mem, kind⟩ := Level.exists_tooDeep limit p
  cases m with
  | clean =>
      rw [show (Level.complainTooDeep limit p).errors.toList = [] from admits] at mem
      cases mem
  | shallow => exact absurd kind (admits e mem)
  | full => rfl

/-! ## Frames and their words -/

/-- The frame is a node of the kind, and its children so far are a lawful word of the language. -/
structure Frame.Builds (m : Tolerance) (k : NodeKind) (L : Language Tree) (f : Frame) : Prop where
  kind : f.kind = k
  tidy : f.parser.Tidy
  word : m.Admits f.parser.errors.toList →
    significant f.children.toList ∈ L ∧ ∀ t ∈ significant f.children.toList, t.Lawful m

/-- At the parser a tree of the class is read. -/
structure Yields (m : Tolerance) (C : Tree → Prop) (p : Parser) (r : Tree × Parser) : Prop where
  reads : Reads p r.1 r.2
  fits : p.Tidy → m.Admits r.2.errors.toList → r.1.Fits m C

theorem Yields.imp {C D : Tree → Prop} {p : Parser} {r : Tree × Parser} (h : Yields m C p r)
    (sub : ∀ t, C t → D t) : Yields m D p r :=
  ⟨h.reads, fun tidy admits => (h.fits tidy admits).imp (sub _)⟩

namespace Frame.Builds

variable {k : NodeKind} {L M X Y : Language Tree} {f : Frame}

theorem mono (h : f.Builds m k L) (le : L ≤ M) : f.Builds m k M :=
  ⟨h.kind, h.tidy, fun admits => ⟨le (h.word admits).1, (h.word admits).2⟩⟩

/-- The parser may go on, as long as it keeps what it has complained about. -/
theorem reparse (h : f.Builds m k L) {q : Parser} (tidy : q.Tidy)
    (errors : f.parser.errors.toList <+: q.errors.toList) :
    { f with parser := q }.Builds m k L :=
  ⟨h.kind, tidy, fun admits => h.word (admits.of_prefix errors)⟩

theorem start {p : Parser} (tidy : p.Tidy) (k : NodeKind) : (p.start k).Builds m k 1 :=
  ⟨rfl, tidy, fun _ => ⟨Language.nil_mem_one, fun t h => by cases h⟩⟩

theorem left (h : f.Builds m k (L * X)) : f.Builds m k (L * (X + Y)) :=
  h.mono (mul_le_mul' le_rfl le_self_add)

theorem right (h : f.Builds m k (L * Y)) : f.Builds m k (L * (X + Y)) :=
  h.mono (mul_le_mul' le_rfl le_add_self)

/-- A part that need not be there. -/
theorem without (h : f.Builds m k L) : f.Builds m k (L * (1 + X)) :=
  left (by rwa [mul_one])

/-- Parts of which there need not be any. -/
theorem starred (h : f.Builds m k L) : f.Builds m k (L * X∗) := by
  refine h.mono ?_
  calc L = L * 1 := (mul_one L).symm
    _ ≤ L * X∗ := mul_le_mul' le_rfl one_le_kstar

theorem optional (h : f.Builds m k L) {c : Prop} [Decidable c] {g : Frame}
    (there : c → g.Builds m k (L * X)) : (if c then g else f).Builds m k (L * (1 + X)) := by
  split
  · next hc => exact (there hc).right
  · exact h.without

/-- A tree that fits lengthens the word. -/
theorem attached (h : f.Builds m k L) {q : Parser} {t : Tree} {role : Option Role}
    {C : Tree → Prop} (tidy : q.Tidy) (errors : f.parser.errors.toList <+: q.errors.toList)
    (fits : m.Admits q.errors.toList → t.Fits m C) (enters : C t → [t.withRole role] ∈ X) :
    ({ f with parser := q }.attach role t).Builds m k (L * X) := by
  refine ⟨h.kind, tidy_attach (f := { f with parser := q }) tidy role t, ?_⟩
  intro admits
  have before := h.word (admits.of_prefix errors)
  have new := fits admits
  have word : significant ({ f with parser := q }.attach role t).children.toList =
      significant f.children.toList ++ [t.withRole role] := by
    rw [← significant_singleton (t := t.withRole role) (by simp [new.significant])]
    simp [attach, flush, significant_of_comments tidy.pending]
  rw [word]
  refine ⟨Language.append_mem_mul before.1 (enters new.shape), ?_⟩
  intro u hu
  rcases List.mem_append.mp hu with hu | hu
  · exact before.2 u hu
  · rw [List.mem_singleton.mp hu]
    exact new.lawful.withRole role

theorem attach (h : f.Builds m k L) {q : Parser} {t : Tree} {role : Option Role}
    {C : Tree → Prop} (yields : Yields m C f.parser (t, q))
    (enters : ∀ t, C t → [t.withRole role] ∈ X) :
    ({ f with parser := q }.attach role t).Builds m k (L * X) :=
  h.attached (yields.reads.tidy h.tidy) yields.reads.later.errors (yields.fits h.tidy) (enters t)

theorem child (h : f.Builds m k L) {role : Option Role} {read : Parser → Tree × Parser}
    {C : Tree → Prop} (yields : Yields m C f.parser (read f.parser))
    (enters : ∀ t, C t → [t.withRole role] ∈ X) : (f.child role read).Builds m k (L * X) :=
  h.attach yields enters

/-- A token lengthens the word. -/
theorem bumpOf (h : f.Builds m k L) (role : Option Role) (here : f.current ≠ .eof)
    (enters : ∀ token : Token, token.kind = f.current → [.token role token] ∈ X) :
    (f.bump role).Builds m k (L * X) := by
  obtain ⟨item, head, kind⟩ := Parser.head_of_kind rfl here
  have tidy := h.tidy.of_head head
  refine ⟨?_, tidy_bump h.tidy role, ?_⟩
  · rw [bump_eq head]
    exact h.kind
  rw [bump_eq head]
  intro admits
  have before := h.word admits
  have plain : (Tree.token role item.token).isComment = false := tidy.plain
  have word : significant ((f.children ++ f.parser.pending ++ item.comments).push
      (.token role item.token)).toList =
        significant f.children.toList ++ [.token role item.token] := by
    rw [← significant_singleton plain]
    simp [significant_of_comments h.tidy.pending, significant_of_comments tidy.comments]
  rw [word]
  refine ⟨Language.append_mem_mul before.1 (enters _ kind), ?_⟩
  intro u hu
  rcases List.mem_append.mp hu with hu | hu
  · exact before.2 u hu
  · rw [List.mem_singleton.mp hu]
    exact Tree.lawful_token role item.token

theorem bump (h : f.Builds m k L) {kind : Kind} (here : f.current = kind) (token : kind ≠ .eof)
    (role : Option Role) : (f.bump role).Builds m k (L * Production.token kind role) :=
  h.bumpOf role (here ▸ token) fun t same => ⟨_, rfl, t, rfl, same.trans here⟩

theorem bumpEither (h : f.Builds m k L) {a b : Kind} (here : f.current = a ∨ f.current = b)
    (ha : a ≠ .eof) (hb : b ≠ .eof) (role : Option Role) :
    (f.bump role).Builds m k (L * (token a role + token b role)) := by
  rcases here with here | here
  · exact (h.bump here ha role).left
  · exact (h.bump here hb role).right

/-- A move at the end of input takes comments at most. -/
theorem bump_end (h : f.Builds m k L) (role : Option Role) (here : f.current = .eof) :
    (f.bump role).Builds m k L := by
  have none : f.parser.ahead.head? = none := by
    rw [Counted.head?, h.tidy.ahead_eq_nil here]
    rfl
  have flushed := bump_of_none none role
  have word : significant f.flush.children.toList = significant f.children.toList := by
    simp [flush, significant_of_comments h.tidy.pending]
  refine ⟨?_, tidy_bump h.tidy role, ?_⟩ <;> rw [flushed]
  · exact h.kind
  · rw [word]
    exact h.word

/-- Some token. -/
theorem bumpAny (h : f.Builds m k L) (here : f.current ≠ .eof) :
    f.bump.Builds m k (L * tokenOf fun _ => True) :=
  h.bumpOf Option.none here fun token _ => ⟨_, rfl, token, rfl, trivial⟩

/-- More tokens. -/
theorem bumps (h : f.Builds m k (L * (tokenOf fun _ => True)∗)) (n : Nat) :
    (f.bumps n).Builds m k (L * (tokenOf fun _ => True)∗) := by
  induction n generalizing f with
  | zero => exact h
  | succ n ih =>
      refine ih ?_
      by_cases here : f.current = .eof
      · exact h.bump_end Option.none here
      · refine (h.bumpAny here).mono ?_
        rw [mul_assoc]
        exact mul_le_mul' le_rfl kstar_mul_le_kstar

/-- A node begins with a token. -/
theorem opened {p : Parser} (tidy : p.Tidy) (k : NodeKind) {kind : Kind} (here : p.kind = kind)
    (token : kind ≠ .eof) (role : Option Role) :
    ((p.start k).bump role).Builds m k (Production.token kind role) := by
  rw [← one_mul (Production.token kind role)]
  exact (start tidy k).bump here token role

/-- A node begins with a tree that has been read. -/
theorem begun {p q : Parser} {t : Tree} {C : Tree → Prop} (yields : Yields m C p (t, q))
    (tidy : p.Tidy) (k : NodeKind) {role : Option Role} (enters : C t → [t.withRole role] ∈ X) :
    ((q.start k).attach role t).Builds m k X := by
  have after := yields.reads.tidy tidy
  rw [← one_mul X]
  exact (start after k).attached after (List.prefix_refl _) (yields.fits tidy) enters

/-- A finished node fits, if its word is one of the production of its kind. -/
theorem finish (h : f.Builds m k L) (le : L ≤ production m k)
    (admits : m.Admits f.finish.2.errors.toList) :
    f.finish.1.Fits m fun t => t.nodeKind? = some k ∧ t.parts ∈ L := by
  have word := h.word admits
  have node : f.finish.1.nodeKind? = some k := by rw [← h.kind]; rfl
  have derived : f.finish.1.parts ∈ production m k := le word.1
  refine ⟨⟨node, word.1⟩, Tree.isComment_of_mem_production node derived,
    .intro ⟨fun _ => rfl, fun kind same => ?_⟩ word.2⟩
  rw [node] at same
  cases same
  exact derived

/-- Tokens put aside are a node of their own. -/
theorem finish_error (h : f.Builds m .error tokens) (repairs : m ≠ .clean)
    (admits : m.Admits f.finish.2.errors.toList) :
    f.finish.1.Fits m fun t => t.nodeKind? = some .error := by
  have built : f.Builds m .error (tokens * (1 + operand m)) := h.without
  exact (built.finish (fun _ word => ⟨repairs, word⟩) admits).imp fun shape => shape.1

/-! ### Repairs -/

/-- What a complaint leaves in the tree counts as repaired. -/
theorem repair (h : f.Builds m k L) (span : Span) (c : Complaint) (role : Option Role)
    (kind : Kind) :
    ({ f with parser := f.parser.complainAt span c }.insertMissing role kind).Builds m k
      (L * repaired m (placeholder kind role)) := by
  refine h.attached (C := fun t => m ≠ .clean ∧ t = f.parser.missing kind)
    (h.tidy.complainAt span c) (f.parser.later_complainAt span c).errors (fun admits => ?_) ?_
  · have repairs := admits.repairs
    exact ⟨⟨repairs, rfl⟩, rfl, Tree.lawful_missing repairs _ _ _⟩
  · rintro ⟨repairs, _⟩
    exact ⟨repairs, _, rfl, f.parser.lastEnd, rfl⟩

theorem skip (h : f.Builds m k L) (span : Span) (c : Complaint) (here : f.current ≠ .eof) :
    { f with parser := f.parser.complainAt span c }.skipAsError.Builds m k (L * junk m) := by
  have tidy := h.tidy.complainAt span c
  let aside := ((f.parser.complainAt span c).start .error).bump
  have later : (f.parser.complainAt span c).Later aside.parser := Parser.Later.bump (.refl _)
  refine h.attached (t := aside.finish.1) (C := fun t => m ≠ .clean ∧ t.nodeKind? = some .error)
    (Frame.tidy_bump tidy none) ((f.parser.later_complainAt span c).errors.trans later.errors)
    (fun admits => ?_) ?_
  · have repairs := (admits.of_prefix later.errors).repairs
    have built : aside.Builds m .error tokens := by
      have one := (start (m := m) tidy .error).bumpAny here
      rw [one_mul] at one
      exact one.starred
    exact (built.finish_error repairs admits).imp fun error => ⟨repairs, error⟩
  · rintro ⟨repairs, error⟩
    exact ⟨repairs, _, rfl, Tree.role_withRole _ _, .error, by simpa using error, rfl⟩

/-- A look ahead changes nothing that counts. -/
theorem looking (h : f.Builds m k L) {q : Parser} (looked : q = f.parser ∨ q = f.parser.noticeEnd) :
    { f with parser := q }.Builds m k L := by
  rcases looked with rfl | rfl
  · exact h
  · exact h.reparse ⟨h.tidy.pending, h.tidy.ahead, h.tidy.trailing⟩ (List.prefix_refl _)

theorem second (h : f.Builds m k L) : f.second.2.Builds m k L :=
  h.looking f.parser.second_looked

/-- Insisting on a token leads to the token, to one behind a token put aside, or to a
placeholder. -/
theorem demand (h : f.Builds m k L) {kind : Kind} (token : kind ≠ .eof) (role : Option Role)
    (c : Complaint) :
    (f.demand kind role c).2 = true ∧ (f.demand kind role c).1.Builds m k
        (L * (Production.token kind role + junk m * Production.token kind role)) ∨
      (f.demand kind role c).2 = false ∧ (f.demand kind role c).1.Builds m k
        (L * repaired m (placeholder kind role)) := by
  rcases f.demand_cases kind role c with ⟨here, e⟩ | ⟨_, q, looked, ⟨stray, next, e⟩ | e⟩
  · rw [e]
    exact .inl ⟨rfl, (h.bump here token role).left⟩
  · have here : ({ f with parser := q } : Frame).current ≠ .eof := by
      intro eof
      have same : f.current = .eof := by rcases looked with rfl | rfl <;> exact eof
      rw [same] at stray
      cases stray
    have behind : ({ f with parser := q.complainAt f.parser.span c } : Frame).skipAsError.current =
        kind := by
      rw [Frame.current_skipAsError (by exact here), ← next]
      show (q.complainAt f.parser.span c).second.1 = _
      rw [Parser.second_complainAt]
      rcases looked with rfl | rfl
      · rfl
      · exact f.parser.second_noticeEnd
    rw [e]
    have skipped := ((h.looking looked).skip f.parser.span c here).bump behind token role
    rw [mul_assoc] at skipped
    exact .inl ⟨rfl, skipped.right⟩
  · rw [e]
    exact .inr ⟨rfl, (h.looking looked).repair f.parser.span c role kind⟩

theorem wanting (h : f.Builds m k L) {kind : Kind} (token : kind ≠ .eof) (role : Option Role)
    (c : Complaint) : (f.demand kind role c).1.Builds m k (L * wanted m kind role) := by
  have split : wanted m kind role = (Production.token kind role + junk m *
      Production.token kind role) + repaired m (placeholder kind role) := (add_assoc _ _ _).symm
  rw [split]
  rcases h.demand token role c with ⟨_, there⟩ | ⟨_, absent⟩
  · exact there.left
  · exact absent.right

theorem expect (h : f.Builds m k L) {kind : Kind} (token : kind ≠ .eof) (role : Option Role) :
    (f.expect kind role).Builds m k (L * wanted m kind role) :=
  h.wanting token role _

theorem expectName (h : f.Builds m k L) (role : Role) :
    (f.expectName role).Builds m k (L * wanted m .identifier (some role)) :=
  h.wanting (by decide) (some role) _

/-- The closer of a construct, or a placeholder for it. -/
theorem close (h : f.Builds m k L) {closer : Kind} (closes : k.closer = some closer)
    (token : closer ≠ .eof) : f.close.Builds m k (L * closing m closer) := by
  obtain rfl := h.kind
  rcases Frame.close_cases closes with ⟨here, e⟩ | ⟨_, span, e⟩ <;> rw [e]
  · exact (h.bump here token _).left
  · exact (h.repair span _ _ closer).right

/-- What is read inside a block is enclosed. -/
theorem within (h : f.Builds m k L) {closers : List Kind} {read : Frame → Frame}
    (nonempty : closers ≠ [])
    (inside : ∀ g : Frame, g.parser.openClosers ≠ [] → g.Builds m k L → (read g).Builds m k M) :
    (f.within closers read).Builds m k M := by
  have entered := h.reparse (q := f.parser.enterBlock closers)
    ⟨h.tidy.pending, h.tidy.ahead, h.tidy.trailing⟩ (List.prefix_refl _)
  have left := inside _ (enclosed_enterBlock nonempty _) entered
  exact left.reparse ⟨left.tidy.pending, left.tidy.ahead, left.tidy.trailing⟩ (List.prefix_refl _)

/-! ### Loops -/

section Loops

variable {step : Frame → Frame × Bool}

/-- Each round of a loop that goes on adds a word of `X`, and the last one a word of `Y`. A round
may count on what all rounds keep. -/
theorem rounds_keeping {I : Frame → Prop} (h : f.Builds m k L) (first : I f)
    (keeps : ∀ g, I g → I (step g).1)
    (each : ∀ {M : Language Tree} (g : Frame), I g → g.Builds m k M →
      (step g).2 = true ∧ (step g).1.Builds m k (M * X) ∨
        (step g).2 = false ∧ (step g).1.Builds m k (M * Y))
    (ends : 1 ≤ Y ∨ ∀ g, (step g).2 = true → (step g).1.parser.remaining < g.parser.remaining) :
    (f.loop step).Builds m k (L * X∗ * Y) := by
  have goes : ∀ g : Frame, I g ∧ g.Builds m k (L * X∗) → (step g).2 = true →
      I (step g).1 ∧ (step g).1.Builds m k (L * X∗) := by
    rintro g ⟨kept, built⟩ go
    refine ⟨keeps g kept, ?_⟩
    rcases each g kept built with ⟨_, round⟩ | ⟨stop, _⟩
    · refine round.mono ?_
      rw [mul_assoc]
      exact mul_le_mul' le_rfl kstar_mul_le_kstar
    · rw [go] at stop
      cases stop
  refine Loop.run_rule goes ?_ ?_ ⟨first, h.starred⟩
  · rintro g ⟨kept, built⟩ stop
    rcases each g kept built with ⟨go, _⟩ | ⟨_, last⟩
    · rw [go] at stop
      cases stop
    · exact last
  -- A loop that stalls has added a word of `X` all the same. It ends in a word of the language
  -- only if nothing has to follow, or if it cannot stall.
  · intro g before go stalls
    rcases ends with empty | shrinks
    · refine (goes g before go).2.mono ?_
      calc L * X∗ = L * X∗ * 1 := (mul_one _).symm
        _ ≤ L * X∗ * Y := mul_le_mul' le_rfl empty
    · exact absurd stalls (Nat.not_le_of_lt (shrinks g go))

theorem rounds (h : f.Builds m k L)
    (each : ∀ {M : Language Tree} (g : Frame), g.Builds m k M →
      (step g).2 = true ∧ (step g).1.Builds m k (M * X) ∨
        (step g).2 = false ∧ (step g).1.Builds m k (M * Y))
    (ends : 1 ≤ Y ∨ ∀ g, (step g).2 = true → (step g).1.parser.remaining < g.parser.remaining) :
    (f.loop step).Builds m k (L * X∗ * Y) :=
  h.rounds_keeping (I := fun _ => True) trivial (fun _ _ => trivial) (fun g _ => each g) ends

/-- What a round adds may be there any number of times. -/
theorem many_keeping {I : Frame → Prop} (h : f.Builds m k L) (first : I f)
    (keeps : ∀ g, I g → I (step g).1)
    (each : ∀ {M : Language Tree} (g : Frame), I g → g.Builds m k M →
      (step g).2 = true ∧ (step g).1.Builds m k (M * X) ∨
        (step g).2 = false ∧ (step g).1.Builds m k M) :
    (f.loop step).Builds m k (L * X∗) := by
  rw [← mul_one (L * X∗)]
  refine h.rounds_keeping first keeps ?_ (.inl le_rfl)
  intro M g kept built
  rw [mul_one]
  exact each g kept built

theorem many (h : f.Builds m k L)
    (each : ∀ {M : Language Tree} (g : Frame), g.Builds m k M →
      (step g).2 = true ∧ (step g).1.Builds m k (M * X) ∨
        (step g).2 = false ∧ (step g).1.Builds m k M) :
    (f.loop step).Builds m k (L * X∗) :=
  h.many_keeping (I := fun _ => True) trivial (fun _ _ => trivial) fun g _ => each g

/-- A loop that goes on after its first round adds something. -/
theorem several (h : f.Builds m k L)
    (each : ∀ {M : Language Tree} (g : Frame), g.Builds m k M →
      (step g).2 = true ∧ (step g).1.Builds m k (M * X) ∨
        (step g).2 = false ∧ (step g).1.Builds m k M)
    (first : (step f).2 = true) : (f.loop step).Builds m k (L * (X * X∗)) := by
  have one : (step f).1.Builds m k (L * X) := by
    rcases each f h with ⟨_, round⟩ | ⟨stop, _⟩
    · exact round
    · rw [first] at stop
      cases stop
  rw [← mul_assoc]
  unfold Frame.loop
  rw [Loop.run]
  split
  · exact one.many each
  · exact one.starred

/-- One token in a role, if it passes. -/
theorem bumpStep {role : Option Role} {passes : Kind → Bool} (token : passes .eof = false)
    (f : Frame) (h : f.Builds m k L) :
    let next := if passes f.current then (f.bump role, true) else (f, false)
    next.2 = true ∧ next.1.Builds m k (L * tokenOf (passes · = true) role) ∨
      next.2 = false ∧ next.1.Builds m k L := by
  dsimp only
  split
  · next here =>
    refine .inl ⟨rfl, h.bumpOf role (fun eof => ?_) fun t same => ⟨_, rfl, t, rfl, same ▸ here⟩⟩
    rw [eof, token] at here
    cases here
  · exact .inr ⟨rfl, h⟩

end Loops

theorem bumpWhile (h : f.Builds m k L) (role : Option Role) (passes : Kind → Bool)
    (token : passes .eof = false) :
    (f.bumpWhile role passes).Builds m k (L * (tokenOf (passes · = true) role)∗) :=
  h.many (bumpStep token)

theorem bumpWhile_several (h : f.Builds m k L) (role : Option Role) (passes : Kind → Bool)
    (token : passes .eof = false) (first : passes f.current = true) :
    (f.bumpWhile role passes).Builds m k
      (L * (tokenOf (passes · = true) role * (tokenOf (passes · = true) role)∗)) :=
  h.several (bumpStep token) (by rw [if_pos first])

theorem commaSeparated (h : f.Builds m k L) {part : Frame → Frame}
    (grows : ∀ g, Grows g (part g))
    (each : ∀ {M : Language Tree} (g : Frame), g.Builds m k M →
      (part g).Builds m k (M * X)) :
    (f.commaSeparated part).Builds m k (L * Production.commaSeparated X) := by
  have built : (f.commaSeparated part).Builds m k (L * (X * Production.token .comma)∗ * X) := by
    refine h.rounds ?_ (.inr ?_)
    · intro M g built
      unfold Frame.eat
      split
      · next here =>
        refine .inl ⟨rfl, ?_⟩
        rw [← mul_assoc]
        exact (each g built).bump here (by decide) none
      · exact .inr ⟨rfl, each g built⟩
    · intro g goes
      unfold Frame.eat at goes ⊢
      split at goes
      · next here =>
        rw [if_pos here]
        exact Nat.lt_of_lt_of_le (Frame.remaining_bump_lt (by rw [here]; decide))
          (grows g).later.remaining_le
      · cases goes
  rwa [mul_assoc] at built

end Frame.Builds

namespace Yields

variable {p : Parser} {f : Frame} {k : NodeKind} {L : Language Tree}

/-- What a frame builds is read. -/
theorem of_frame (reads : Reads p f.finish.1 f.finish.2) (built : p.Tidy → f.Builds m k L)
    (le : L ≤ production m k) :
    Yields m (fun t => t.nodeKind? = some k ∧ t.parts ∈ L) p f.finish :=
  ⟨reads, fun tidy admits => (built tidy).finish le admits⟩

theorem node (reads : Reads p f.finish.1 f.finish.2)
    (built : p.Tidy → f.Builds m k (production m k)) :
    Yields m (fun t => t.nodeKind? = some k) p f.finish :=
  (of_frame reads built le_rfl).imp fun _ shape => shape.1

end Yields

end JassSyntax
