import JassSyntax.Proofs.Simulation.Basic

/-!
# Expressions side by side

Levels that read alike inside make expressions that are read alike outside.
-/

namespace JassSyntax

/-- What two levels read between tokens of a parent, and as bodies, is related. -/
structure Level.Alike (σ : Simulation) (u l : Level) : Prop where
  traced : u.Traced
  enclosed : ∀ {power p q}, power ≤ 11 → σ.Parsers p q →
    σ.Results .enclosed (u.binding power p) (l.binding power q)
  body : ∀ {terminators f g}, (∀ k ∈ terminators, k.isClosingKeyword = true) →
    f.parser.openClosers ≠ [] → σ.Frames f g →
    σ.Frames (u.body terminators f) (l.body terminators g)

/-- What two levels read as operands and as items of lists is related. -/
structure Level.OperandsAlike (σ : Simulation) (u l : Level) : Prop where
  operand : ∀ {power p q}, power ≤ 11 → σ.Parsers p q →
    σ.Results .operand (u.binding power p) (l.binding power q)
  item : ∀ {p q}, σ.Parsers p q →
    σ.Results .item (u.binding (Power.comma + 1) p) (l.binding (Power.comma + 1) q)

open Simulation

variable {σ : Simulation} {u l : Level} {p q : Parser} {f g : Frame}

/-! ## Parts of blocks -/

namespace Frame

/-- An expression between tokens of its parent. -/
theorem enclosed_alike (alike : u.Alike σ l) (h : σ.Frames f g) {role : Option Role}
    (at_ : f.kind.place role = .enclosed) {power : Nat} (loose : power ≤ 11) :
    σ.Frames (f.child role (u.binding power)) (g.child role (l.binding power)) :=
  childAt .enclosed h at_ (by decide) (alike.traced.binding _ _)
    fun related => alike.enclosed loose related

/-- The body and the closer of a construct. -/
theorem closedBody_alike_of_closer (alike : u.Alike σ l) {closer : Kind}
    (closes : f.kind.closer = some closer) (h : σ.Frames f g) :
    σ.Frames (f.closedBody u) (g.closedBody l) := by
  have grown := closedBody_grows alike.traced closes
  refine σ.counting h grown fun _ kind => ?_
  have keyword := NodeKind.isClosingKeyword_of_closer closes
  have closing : ∀ k ∈ [closer], k.isClosingKeyword = true := by simpa using keyword
  have nonempty : [closer] ≠ [] := List.cons_ne_nil _ _
  have open_ := enclosed_enterBlock nonempty f.parser
  unfold closedBody
  rw [kind, closes]
  exact σ.block h closes nonempty closing (alike.traced.body _ _ closing open_)
    (fun entered => alike.body closing open_ entered) (.refl _) fun _ closed => closed

/-- The same behind the head of a construct. -/
theorem closedBody_alike (alike : u.Alike σ l) {k : NodeKind} {closer : Kind}
    (headed : Grows (p.start k) f) (closes : k.closer = some closer) (h : σ.Frames f g) :
    σ.Frames (f.closedBody u) (g.closedBody l) := by
  have at_ : f.kind.closer = some closer := headed.kind ▸ closes
  exact closedBody_alike_of_closer alike at_ h

theorem parameter_alike (h : σ.Parsers p q) (name : p.kind = .identifier) :
    σ.Results .beside (parameter p) (parameter q) := by
  have here : p.kind ≠ .eof := by rw [name]; decide
  have begun := σ.start .parameter h
  have same : (q.second.1 = .identifier) = (p.second.1 = .identifier) :=
    (σ.agrees h).second_is here (by decide)
  rcases Frame.parameter_cases p with ⟨typed, e⟩ | ⟨untyped, e⟩ <;>
    rcases Frame.parameter_cases q with ⟨typed', e'⟩ | ⟨untyped', e'⟩
  · have next : ((p.start .parameter).bump (some .type)).current ≠ .eof := by
      rw [Frame.current_bump (f := p.start .parameter) here]
      show p.second.1 ≠ .eof
      rw [typed]
      decide
    rw [e, e']
    exact σ.finish (σ.bump (some .name) (σ.bump (some .type) begun here) next)
  · exact absurd (same ▸ typed) untyped'
  · exact absurd (same ▸ typed') untyped
  · rw [e, e']
    have there : p.second.2.kind ≠ .eof := p.kind_second.symm ▸ here
    exact σ.finish (σ.bump (some .name) (σ.second begun here) there)

theorem parameterItems_alike (h : σ.Frames f g) (at_ : f.kind.place none = .beside) :
    σ.Frames f.parameterItems g.parameterItems := by
  refine loop_from h fun {f₁ g₁} before related => ?_
  have grown : Grows f₁ (if f₁.current = .identifier then (f₁.child none parameter).eat .comma
      else (f₁, false)).1 := by
    split
    · exact ((Grows.refl f₁).child (parameter_reads _)).eat
    · exact .refl f₁
  refine ⟨grown, .counting related grown fun same _ => ?_⟩
  have current : (g₁.current = .identifier) = (f₁.current = .identifier) := same.is (by decide)
  rw [ite_cond_congr current]
  split
  · next name =>
    exact Simulation.eat (childBeside related (before.kind ▸ at_) (parameter_reads _)
      fun parsers => parameter_alike parsers name) (by decide)
  · exact .of_frames related false

theorem parameterList_alike (h : σ.Parsers p q) :
    σ.Results .beside (parameterList p) (parameterList q) := by
  have finished : ∀ p, parameterList p =
      (if ((p.start .parameters).demand .lParen none (.unexpected .lParen)).2 then
        ((p.start .parameters).demand .lParen none
          (.unexpected .lParen)).1.parameterItems.expect .rParen
      else ((p.start .parameters).demand .lParen none (.unexpected .lParen)).1).finish := by
    intro p
    unfold parameterList
    dsimp only
    split <;> rfl
  have opened := Simulation.demand (k := .lParen) (σ.start .parameters h) (by decide) none
    (.unexpected .lParen)
  have kind : ((p.start .parameters).demand .lParen none (.unexpected .lParen)).1.kind =
      .parameters := (Grows.refl _).demand.kind
  rw [finished, finished]
  refine σ.finish (opened.follow ?_ fun begun told => ?_)
  · split
    · exact (parameterItems_grows _).expect
    · exact .refl _
  · rw [told]
    split
    · exact Simulation.expect (parameterItems_alike begun (by rw [kind]; rfl)) (by decide) none
    · exact begun

theorem parameters_alike (h : σ.Frames f g) : σ.Frames f.parameters g.parameters :=
  childBeside h rfl (parameterList_reads _) parameterList_alike

end Frame

namespace Expression

open JassSyntax.Frame (enclosed_alike)

/-! ## Literals -/

theorem string_alike (h : σ.Parsers p q) (here : p.kind ≠ .eof) :
    σ.Results .beside (string p) (string q) := by
  have opened := σ.bump (some .opening) (σ.start .string h) here
  refine σ.finish (expect ?_ (by decide) (some .closing))
  refine branch (c := (· = .stringContent)) opened (by simp) ?_
    (fun content => σ.bump (some .content) opened (by rw [content]; decide)) fun _ => opened
  split
  · exact (Grows.refl _).bump
  · exact .refl _

/-- Whether a field begins shows in the current token. -/
theorem tableKey_begins (inner : Level) (f : Frame) : (tableKey inner f).2 =
    (f.current == .lBracket || f.current.canStartExpression) := by
  unfold tableKey
  split
  · next here => rw [here]; rfl
  · next here => rw [here]; rfl
  · next other _ =>
    rw [beq_eq_false_iff_ne.mpr other]
    rfl

theorem tableKey_alike (alike : u.Alike σ l) (h : σ.Frames f g) :
    σ.Frames (tableKey u f).1 (tableKey l g).1 := by
  refine σ.counting h (tableKey_grows alike.traced f) fun same _ => ?_
  have bracket' : (g.current = .lBracket) = (f.current = .lBracket) := same.is (by decide)
  have name' : (g.current = .identifier) = (f.current = .identifier) := same.is (by decide)
  by_cases bracket : f.current = .lBracket
  · have here : f.current ≠ .eof := by rw [bracket]; decide
    have opened : σ.Frames (f.bump.child (some .key) u.expression)
        (g.bump.child (some .key) l.expression) :=
      enclosed_alike alike (σ.bump none h here) rfl (by decide)
    unfold tableKey
    rw [bracket, bracket'.mpr bracket]
    exact expect (expect opened (by decide) none) (by decide) none
  by_cases name : f.current = .identifier
  · have here : f.current ≠ .eof := by rw [name]; decide
    have looked := σ.second h here
    have there : f.second.2.current = f.current := f.parser.kind_second
    unfold tableKey
    rw [name, name'.mpr name]
    show σ.Frames (if f.parser.second.1 = .equals then _ else _)
      (if g.parser.second.1 = .equals then _ else _)
    rw [ite_cond_congr (same.second_is here (by decide))]
    split
    · next equals =>
      refine σ.bump none (σ.bump (some .key) looked (there ▸ here)) ?_
      rw [Frame.current_bump (there ▸ here), show f.second.2.parser.second.1 = _ from
        f.parser.second_second, equals]
      decide
    · exact looked
  · have plain : ∀ (inner : Level) {f : Frame}, f.current ≠ .lBracket → f.current ≠ .identifier →
        (tableKey inner f).1 = f := by
      intro inner f bracket name
      unfold tableKey
      split <;> first | contradiction | rfl
    rw [plain u bracket name, plain l (mt bracket'.mp bracket) (mt name'.mp name)]
    exact h

/-- One field of a table. -/
def field (inner : Level) (p : Parser) : Tree × Parser :=
  ((tableKey inner (p.start .field)).1.child (some .value)
    (inner.binding (Power.assignment + 1))).finish

theorem field_reads (traced : u.Traced) (p : Parser) : Reads p (field u p).1 (field u p).2 :=
  .node .field rfl ((tableKey_grows traced _).child (traced.binding _ _))

theorem field_alike (alike : u.Alike σ l) (h : σ.Parsers p q) :
    σ.Results .beside (field u p) (field l q) :=
  σ.finish (enclosed_alike alike (tableKey_alike alike (σ.start .field h)) rfl (by decide))

theorem tableStep_eq (inner : Level) (f : Frame) : tableStep inner f =
    if f.current = .comma ∨ f.current = .semicolon then
      ((f.complain .noTableField).skipAsError, true)
    else if f.current == .lBracket || f.current.canStartExpression then
      if (f.child none (field inner)).current = .comma ∨
          (f.child none (field inner)).current = .semicolon then
        ((f.child none (field inner)).bump, true)
      else (f.child none (field inner), false)
    else (f, false) := by
  unfold tableStep
  split
  · rfl
  have begins := tableKey_begins inner (f.parser.start .field)
  dsimp only
  rw [begins]
  by_cases field : (f.current == .lBracket || f.current.canStartExpression) = true
  · rw [if_pos field]
    exact if_pos field
  · rw [if_neg field]
    refine (if_neg field).trans ?_
    rw [tableKey_of_not_begins (begins.trans (Bool.eq_false_iff.mpr field))]
    rfl

/-- The first text goes on, or both end at once. A table is the one place where a semicolon is taken
for what it would not be at the end of input. -/
def Going (σ : Simulation) (f : Frame) : Prop := σ.excess = 0 ∨ f.parser.ahead.toList ≠ []

theorem Going.before (going : Going σ g) (grown : Grows f g) : Going σ f := by
  refine going.imp_right fun some none => some ?_
  have suffix := grown.later.ahead
  rw [none] at suffix
  exact List.suffix_nil.mp suffix

theorem tableStep_alike (alike : u.Alike σ l) (h : σ.Frames f g)
    (at_ : f.kind.place none = .beside) (going : Going σ (tableStep u f).1) :
    σ.Steps (tableStep u f) (tableStep l g) := by
  have grown := tableStep_grows alike.traced f
  refine .counting h grown fun same _ => ?_
  have current : g.current = f.current := same.kind_eq (going.before grown)
  have filled := childBeside h at_ (field_reads alike.traced _) (field_alike (l := l) alike)
  rw [tableStep_eq] at going ⊢
  rw [tableStep_eq, current]
  by_cases separator : f.current = .comma ∨ f.current = .semicolon
  · rw [if_pos separator, if_pos separator]
    exact .of_frames (σ.skip _ h (Kind.ne_eof_of_separator separator)) true
  rw [if_neg separator] at going
  rw [if_neg separator, if_neg separator]
  by_cases begins : (f.current == .lBracket || f.current.canStartExpression) = true
  · rw [if_pos begins] at going
    rw [if_pos begins, if_pos begins]
    have grown : Grows (f.child none (field u))
        (if (f.child none (field u)).current = .comma ∨
            (f.child none (field u)).current = .semicolon then
          ((f.child none (field u)).bump, true) else (f.child none (field u), false)).1 := by
      split
      · exact (Grows.refl _).bump
      · exact .refl _
    refine .counting filled grown fun same _ => ?_
    rw [show (g.child none (field l)).current = (f.child none (field u)).current from
      same.kind_eq (going.before grown)]
    split
    · next separator =>
      exact .of_frames (σ.bump none filled (Kind.ne_eof_of_separator separator)) true
    · exact .of_frames filled false
  · rw [if_neg begins, if_neg begins]
    exact .of_frames h false

/-- The fields of a table are related as long as the first text goes on. Where it does not, the
brace that closes the table is missing. -/
theorem table_alike (alike : u.Alike σ l) (h : σ.Parsers p q) (here : p.kind ≠ .eof) :
    σ.Results .beside (table u p) (table l q) := by
  let start := (p.start .tableConstructor).bump
  have begun := σ.bump none (σ.start .tableConstructor h) here
  have fields : Grows start (start.loop (tableStep u)) ∧ (Going σ (start.loop (tableStep u)) →
      σ.Frames (start.loop (tableStep u))
        ((q.start .tableConstructor).bump.loop (tableStep l))) := by
    refine loops (S := fun f₁ g₁ => Grows start f₁ ∧ (Going σ f₁ → σ.Frames f₁ g₁)) (G := Grows)
      (n := σ.excess) .refl (fun first second => first.trans second) ?_ ?_
      ⟨.refl start, fun _ => begun⟩
    · rintro a b a' b' ⟨before, related⟩ grown rest
      refine ⟨before.trans grown, fun going => ?_⟩
      exact σ.counting (related (going.before grown)) grown fun same _ =>
        (rest same.remaining).2 going
    · rintro a b ⟨before, related⟩
      have grown := tableStep_grows alike.traced a
      have steps : Going σ (tableStep u a).1 → σ.Steps (tableStep u a) (tableStep l b) := by
        intro going
        refine tableStep_alike alike (related (going.before grown)) ?_ going
        rw [before.kind, Frame.kind_bump]
        rfl
      refine ⟨grown, ⟨before.trans grown, fun going => (steps going).1⟩, fun later rest => ?_⟩
      refine ⟨(before.trans grown).trans later, fun going => ?_⟩
      exact (steps (going.before later)).2 later fun told => (rest told).2 going
  refine σ.finish ?_
  by_cases going : Going σ (start.loop (tableStep u))
  · exact expect (fields.2 going) (by decide) none
  · obtain ⟨more, ended⟩ := not_or.mp going
    exact σ.unended (Nat.pos_of_ne_zero more) (Classical.not_not.mp ended)

theorem function_alike (alike : u.Alike σ l) (h : σ.Parsers p q) (here : p.kind ≠ .eof) :
    σ.Results .beside (function u p) (function l q) := by
  have headed := Frame.parameters_alike (σ.bump none (σ.start .functionExpression h) here)
  exact σ.finish (Frame.closedBody_alike alike
    ((Grows.refl _).bump.trans (Frame.parameters_grows _)) rfl headed)

theorem parenthesized_alike (alike : u.Alike σ l) (h : σ.Parsers p q) (here : p.kind ≠ .eof) :
    σ.Results .beside (parenthesized u p) (parenthesized l q) :=
  σ.finish (expect (enclosed_alike alike (σ.bump none (σ.start .parenthesizedExpression h) here) rfl
    (by decide)) (by decide) none)

/-! ## Operands -/

/-- Two operands are related if what has been read is, and both may go on or neither. -/
def Operands (σ : Simulation) (e r : Operand) : Prop :=
  σ.Results .beside (e.tree, e.parser) (r.tree, r.parser) ∧
    ∀ {e' r'}, Covers (e.tree, e.parser) e' → (r.extensible = e.extensible →
      σ.Results .beside e' r') → σ.Results .beside e' r'

variable {e r : Operand}

theorem Operands.of_results {x y : Tree × Parser} (h : σ.Results .beside x y) (extensible : Bool) :
    Operands σ ⟨x.1, extensible, x.2⟩ ⟨y.1, extensible, y.2⟩ :=
  ⟨h, fun _ rest => rest rfl⟩

theorem Operands.counting {e' r' : Operand} (h : Operands σ e r)
    (covers : Covers (e.tree, e.parser) (e'.tree, e'.parser))
    (rest : e.parser.Matches σ.excess r.parser → r.extensible = e.extensible → Operands σ e' r') :
    Operands σ e' r' :=
  ⟨σ.covering h.1 covers fun same => h.2 covers fun ext => (rest same ext).1,
    fun later told => σ.covering h.1 (covers.trans later) fun same =>
      h.2 (covers.trans later) fun ext => (rest same ext).2 later told⟩

theorem primary_alike (alike : u.Alike σ l) (h : σ.Parsers p q) :
    Operands σ (primary u p) (primary l q) := by
  have nothing : ∀ (inner : Level) {p : Parser}, p.kind = .eof ∨ p.kind = .semicolon →
      primary inner p = ⟨p.missing .identifier, false, p.complain .noExpression⟩ := by
    intro inner p kind
    unfold primary
    rcases kind with kind | kind <;> rw [kind] <;> rfl
  by_cases eof : p.kind = .eof
  · have there : q.kind = .eof ∨ q.kind = .semicolon :=
      (σ.agrees h).kind.imp (·.trans eof) And.right
    rw [nothing u (.inl eof), nothing l there]
    exact .of_results (σ.absent _ _ h) false
  obtain ⟨item, head, _⟩ := Parser.head_of_kind rfl eof
  have leaf : σ.Results .beside p.takeLeaf q.takeLeaf := σ.leaf h head
  unfold primary
  rw [(σ.agrees h).kind_of_ne_eof eof]
  cases p.kind
  case identifier => exact .of_results leaf true
  case number => exact .of_results leaf false
  case float => exact .of_results leaf false
  case stringStart => exact .of_results (string_alike h eof) false
  case lBrace => exact .of_results (table_alike alike h eof) false
  case lParen => exact .of_results (parenthesized_alike alike h eof) true
  case kwFunction => exact .of_results (function_alike alike h eof) false
  all_goals exact .of_results (σ.absent _ _ h) false

theorem arguments_alike (alike : u.Alike σ l) (h : σ.Parsers p q) (begins : p.kind ≠ .eof) :
    σ.Results .beside (arguments u p) (arguments l q) := by
  have opened := σ.bump none (σ.start .arguments h) begins
  have place : ∀ {f₁}, Grows (p.start .arguments).bump f₁ → f₁.kind.place none = .enclosed := by
    intro f₁ grown
    rw [grown.kind, Frame.kind_bump]
    rfl
  have listed : σ.Results .beside
      ((if (p.start .arguments).bump.current = .rParen then (p.start .arguments).bump
        else (p.start .arguments).bump.commaSeparated fun f =>
          f.child none u.expression).expect .rParen).finish
      ((if (q.start .arguments).bump.current = .rParen then (q.start .arguments).bump
        else (q.start .arguments).bump.commaSeparated fun f =>
          f.child none l.expression).expect .rParen).finish := by
    refine σ.finish (expect (branch (c := (· = .rParen)) opened (by simp) ?_ (fun _ => opened)
      fun _ => ?_) (by decide) none)
    · split
      · exact .refl _
      · exact (Grows.refl _).commaSeparated fun g => (Grows.refl g).child (alike.traced.binding _ _)
    · exact commaSeparated opened fun before related =>
        ⟨(Grows.refl _).child (alike.traced.binding _ _),
          enclosed_alike alike related (place before) (by decide)⟩
  unfold arguments
  rw [(σ.agrees h).kind_of_ne_eof begins]
  cases p.kind
  case stringStart => exact string_alike h begins
  case lBrace => exact table_alike alike h begins
  all_goals exact listed

theorem methodCall_alike (alike : u.Alike σ l) (h : σ.Frames f g) (here : f.current ≠ .eof) :
    σ.Frames (methodCall u f) (methodCall l g) := by
  have named := expectName (σ.bump none h here) .method
  have grown : Grows (f.bump.expectName .method) (methodCall u f) := by
    unfold methodCall
    dsimp only
    split
    · exact (Grows.refl _).child (arguments_begins alike.traced _).reads
    · exact (Grows.refl _).repair
  refine branch (c := fun k => k.startsArguments = true) named rfl grown (fun starts => ?_)
    fun _ => ?_
  · exact childBeside named rfl (arguments_begins alike.traced _).reads fun parsers =>
      arguments_alike alike parsers (Kind.ne_eof_of_startsArguments starts)
  · exact σ.repair _ _ _ named

/-- Two extensions of operands are related if the operands are, and they tell the same. -/
def Extensions (σ : Simulation) (x y : Operand × Bool) : Prop :=
  Operands σ x.1 y.1 ∧ ∀ {e' r' : Operand}, Covers (x.1.tree, x.1.parser) (e'.tree, e'.parser) →
    (y.2 = x.2 → Operands σ e' r') → Operands σ e' r'

theorem Extensions.of_operands (h : Operands σ e r) (b : Bool) : Extensions σ (e, b) (r, b) :=
  ⟨h, fun _ rest => rest rfl⟩

theorem Extensions.of_frames (h : σ.Frames f g) (extensible : Bool) :
    Extensions σ (.ofFrame f extensible, true) (.ofFrame g extensible, true) :=
  .of_operands (.of_results (σ.finish h) extensible) true

theorem Extensions.counting {x y : Operand × Bool} (h : Operands σ e r)
    (covers : Covers (e.tree, e.parser) (x.1.tree, x.1.parser))
    (rest : e.parser.Matches σ.excess r.parser → r.extensible = e.extensible → Extensions σ x y) :
    Extensions σ x y :=
  ⟨h.counting covers fun same ext => (rest same ext).1, fun later told =>
    h.counting (covers.trans later) fun same ext => (rest same ext).2 later told⟩

theorem extend_alike (alike : u.Alike σ l) (h : Operands σ e r) :
    Extensions σ (extend u e) (extend l r) := by
  refine .counting h (.single (extend_wraps alike.traced e)) fun same ext => ?_
  have based : ∀ k : NodeKind, σ.Frames (e.base k) (r.base k) := fun k =>
    σ.wrap (k := k) h.1 (.inl rfl)
  have nothing : ∀ (inner : Level) {e : Operand},
      e.parser.kind = .eof ∨ e.parser.kind = .semicolon → extend inner e = (e, false) := by
    intro inner e kind
    unfold extend
    rcases kind with kind | kind <;> cases ext : e.extensible <;> rw [kind] <;> rfl
  by_cases eof : e.parser.kind = .eof
  · rw [nothing u (.inl eof), nothing l (same.kind.imp (·.trans eof) And.right)]
    exact .of_operands h false
  have updated : Extensions σ
      (.ofFrame (((e.parser.start .updateExpression).attach (some .operand) e.tree).bump
        (some .operator)) false, true)
      (.ofFrame (((r.parser.start .updateExpression).attach (some .operand) r.tree).bump
        (some .operator)) false, true) :=
    .of_frames (σ.bump _ (σ.wrap h.1 (.inr (.inr (.inl ⟨rfl, rfl⟩)))) eof) false
  have called : Extensions σ
      (.ofFrame ((e.base .functionCall).child (some .args) (arguments u)) true, true)
      (.ofFrame ((r.base .functionCall).child (some .args) (arguments l)) true, true) :=
    .of_frames (childBeside (based .functionCall) rfl (arguments_begins alike.traced _).reads
      fun parsers => arguments_alike alike parsers eof) true
  unfold extend
  rw [same.kind_of_ne_eof eof, ext]
  cases here : e.parser.kind <;> cases e.extensible
  all_goals first
    | exact updated
    | exact called
    | exact .of_operands h false
    | exact .of_frames (methodCall_alike alike (based .functionCall) eof) true
    | exact .of_frames (expectName (σ.bump none (based .memberExpression) eof) .name) true
    | exact .of_frames (expect (enclosed_alike alike (σ.bump none (based .indexExpression) eof) rfl
        (by decide)) (by decide) none) true

theorem extended_alike (alike : u.Alike σ l) (h : Operands σ e r) :
    σ.Results .beside (extended u e) (extended l r) := by
  refine (loops (S := Operands σ) (n := σ.excess)
    (G := fun e e' : Operand => Covers (e.tree, e.parser) (e'.tree, e'.parser))
    (fun _ => .refl) .trans (fun related covers rest => related.counting covers fun same _ =>
      rest same.remaining) (fun {a b} related => ?_) h).1
  have extended := extend_alike alike related
  exact ⟨.single (extend_wraps alike.traced a), extended.1, extended.2⟩

theorem operandFrom_alike (alike : u.Alike σ l) (operands : u.OperandsAlike σ l)
    {first first' : Parser → Operand}
    (begins : ∀ {p q}, σ.Parsers p q → Operands σ (first p) (first' q)) (h : σ.Parsers p q) :
    σ.Results .beside (operandFrom u first p) (operandFrom l first' q) := by
  have kind : q.kind.isUnary = p.kind.isUnary := (σ.agrees h).blind rfl
  unfold operandFrom
  rw [kind]
  split
  · next unary =>
    have signed := σ.bump (some .operator) (σ.start .unaryExpression h)
      (Kind.ne_eof_of_isUnary unary)
    refine σ.finish (childAt .operand signed ?_ (by decide) (alike.traced.binding _ _)
      (operands.operand (by decide)))
    rw [Frame.kind_bump]
    rfl
  · exact extended_alike alike (begins h)

theorem primaryOrStray_alike (alike : u.Alike σ l) (operands : u.OperandsAlike σ l)
    (h : σ.Parsers p q) : Operands σ (primaryOrStray u p) (primaryOrStray l q) := by
  have kind : (q.kind.isStray = true ∧ (!q.kind.isClosingBracket) = true) =
      (p.kind.isStray = true ∧ (!p.kind.isClosingBracket) = true) :=
    (σ.agrees h).blind (c := fun k => k.isStray = true ∧ (!k.isClosingBracket) = true) rfl
  unfold primaryOrStray
  dsimp only
  rw [ite_cond_congr kind]
  split
  · next stray =>
    have put := σ.stray .noExpression h (Kind.ne_eof_of_isStray stray.1)
    have reads := operandFrom_reads alike.traced (primary_reads alike.traced)
    refine .of_results (σ.finish (branch (c := fun k => k.canStartExpression = true) put rfl ?_
      (fun _ => ?_) fun _ => put)) false
    · split
      · exact (Grows.refl _).child (reads _)
      · exact .refl _
    · refine childBeside put ?_ (reads _)
        (operandFrom_alike alike operands (primary_alike alike))
      rw [Frame.kind_bump]
      rfl
  · exact primary_alike alike h

theorem operand_alike (alike : u.Alike σ l) (operands : u.OperandsAlike σ l) (h : σ.Parsers p q) :
    σ.Results .beside (operand u p) (operand l q) :=
  operandFrom_alike alike operands (primaryOrStray_alike alike operands) h

/-! ## Operators between operands -/

theorem listStep_alike (traced : u.Traced) (operands : u.OperandsAlike σ l) (h : σ.Frames f g)
    (list : f.kind = .expressionList) : σ.Steps (listStep u f) (listStep l g) := by
  refine .counting h (listStep_grows traced f) fun same _ => ?_
  have current : (g.current = .comma) = (f.current = .comma) := same.is (by decide)
  unfold listStep
  rw [ite_cond_congr current]
  split
  · next comma =>
    exact .of_frames (σ.item h list comma (traced.binding _ _) operands.item) true
  · exact .of_frames h false

variable {a b : Tree × Parser}

theorem list_alike (traced : u.Traced) (operands : u.OperandsAlike σ l)
    (h : σ.Results .beside a b) : σ.Results .beside (list u a.1 a.2) (list l b.1 b.2) := by
  rw [list_eq, list_eq]
  exact σ.finish (loop_from (σ.wrap h (.inr (.inr (.inr ⟨rfl, rfl⟩)))) fun {f₁ _} before related =>
    ⟨listStep_grows traced f₁, listStep_alike traced operands related before.kind⟩)

/-- Two rounds of joining are related if what has been read is, and they tell the same. -/
def Joins (σ : Simulation) (x y : (Tree × Parser) × Bool) : Prop :=
  σ.Results .beside x.1 y.1 ∧ ∀ {e' r'}, Covers x.1 e' →
    (y.2 = x.2 → σ.Results .beside e' r') → σ.Results .beside e' r'

theorem Joins.of_results (h : σ.Results .beside a b) (flag : Bool) : Joins σ (a, flag) (b, flag) :=
  ⟨h, fun _ rest => rest rfl⟩

theorem join_alike (traced : u.Traced) (operands : u.OperandsAlike σ l) (power : Nat)
    (h : σ.Results .beside a b) : Joins σ (join u power a) (join l power b) := by
  have wraps : Covers a (join u power a).1 := .single (join_wraps traced power a)
  suffices joins : a.2.Matches σ.excess b.2 → Joins σ (join u power a) (join l power b) from
    ⟨σ.covering h wraps fun same => (joins same).1, fun later told =>
      σ.covering h (wraps.trans later) fun same => (joins same).2 later told⟩
  intro same
  have binary : b.2.kind.binary? = a.2.kind.binary? := same.blind (c := Kind.binary?) rfl
  unfold join
  rw [binary]
  cases op : a.2.kind.binary? with
  | none => exact .of_results h false
  | some binding =>
      have here := Kind.ne_eof_of_binary? op
      rw [same.kind_of_ne_eof here]
      dsimp only
      split
      · exact .of_results h false
      split
      · exact .of_results (list_alike traced operands h) true
      · exact .of_results (σ.finish (childAt .operand
          (σ.bump _ (σ.wrap h (.inr (.inl rfl))) here) rfl (by decide) (traced.binding _ _)
          (operands.operand (Kind.rightPower_le_eleven_of_binary? op)))) true

/-- An expression is read alike if its operands are. -/
theorem binding_alike (alike : u.Alike σ l) (operands : u.OperandsAlike σ l) (power : Nat)
    (h : σ.Parsers p q) : σ.Results .beside (binding u power p) (binding l power q) := by
  refine loops (S := σ.Results .beside) (G := Covers) (n := σ.excess) (fun _ => .refl) .trans
    (fun related covers rest => σ.covering related covers fun same => rest same.remaining)
    (fun {a b} related => ?_) (operand_alike alike operands h)
  have joined := join_alike alike.traced operands power related
  exact ⟨.single (join_wraps alike.traced power a), joined.1, joined.2⟩

end Expression

end JassSyntax
