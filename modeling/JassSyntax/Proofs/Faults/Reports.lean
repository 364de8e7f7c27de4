import JassSyntax.Proofs.Faults.Accounting

/-!
# What is put aside is reported

An error node begins with the token that was complained about, unless nesting is cut off right after
a complaint about nesting: then nothing is said again. Such an earlier complaint is about a token
that has been taken since, or about the one that comes next. So whoever puts a token aside either
has been heard on the way, or comes right behind a complaint about nesting from before.
-/

namespace JassSyntax

namespace Tree

/-- Something in the tree, or all of it, has been put aside. -/
def HoldsError (t : Tree) : Prop := ∃ e ∈ t.elements, e.nodeKind? = some .error

variable {t : Tree}

theorem holdsError_iff :
    t.HoldsError ↔ t.nodeKind? = some .error ∨ ∃ c ∈ t.children, c.HoldsError := by
  constructor
  · rintro ⟨e, mem, error⟩
    rcases mem_elements.mp mem with rfl | ⟨c, child, mem⟩
    · exact .inl error
    · exact .inr ⟨c, child, e, mem, error⟩
  · rintro (error | ⟨c, child, e, mem, error⟩)
    · exact ⟨t, self_mem_elements t, error⟩
    · exact ⟨e, mem_elements_below child mem, error⟩

@[simp] theorem holdsError_withRole (r : Option Role) (t : Tree) :
    (t.withRole r).HoldsError ↔ t.HoldsError := by
  rw [holdsError_iff, holdsError_iff, nodeKind?_withRole, children_withRole]

@[simp] theorem not_holdsError_token (r : Option Role) (t : Token) : ¬(token r t).HoldsError := by
  rw [holdsError_iff]
  rintro (error | ⟨c, child, _⟩)
  · cases error
  · cases child

@[simp] theorem not_holdsError_missing (r : Option Role) (k : Kind) (p : Position) :
    ¬(missing r k p).HoldsError := by
  rw [holdsError_iff]
  rintro (error | ⟨c, child, _⟩)
  · cases error
  · cases child

theorem Comment.not_holdsError (comment : t.Comment) : ¬t.HoldsError := by
  rintro ⟨e, mem, error⟩
  cases comment.elements e mem with
  | token => cases error
  | block => cases error

end Tree

open JassSyntax.Tree

/-! ## Complaints about nesting -/

namespace Parser

/-- The last complaint was about nesting, so no other one about nesting would be made. -/
def Hushed (p : Parser) : Prop := ∃ e, p.errors.back? = some e ∧ e.kind = .nestingTooDeep

/-- Reading from the first parser to the second takes the items. -/
def Takes (p : Parser) (taken : List Item) (q : Parser) : Prop :=
  p.ahead.toList = taken ++ q.ahead.toList ∧ p.errors.toList <+: q.errors.toList

/-- The last complaint, if it is about nesting, was made before, or about something taken since, or
about what comes next. -/
def Heard (p q : Parser) : Prop :=
  ∃ taken, p.Takes taken q ∧ ∀ e, q.errors.back? = some e → e.kind = .nestingTooDeep →
    p.errors.back? = some e ∨ (∃ item ∈ taken, item.token.span = e.span) ∨
      ∀ item, q.ahead.head? = some item → item.token.span = e.span

/-- Something is taken, and there is a complaint about something taken, unless the complaint before
was about nesting. -/
def Told (p q : Parser) : Prop :=
  ∃ taken, p.Takes taken q ∧ taken ≠ [] ∧
    (p.Hushed ∨ ∃ e ∈ q.errors.toList, ∃ item ∈ taken, item.token.span = e.span)

variable {p q r : Parser} {s t : List Item}

theorem Later.takes (later : p.Later q) : ∃ taken, p.Takes taken q := by
  obtain ⟨taken, ahead⟩ := later.ahead
  exact ⟨taken, ahead.symm, later.errors⟩

theorem Takes.trans (first : p.Takes s q) (second : q.Takes t r) : p.Takes (s ++ t) r :=
  ⟨by rw [first.1, second.1, List.append_assoc], first.2.trans second.2⟩

/-- Nothing is said on the way. -/
theorem Later.heard (later : p.Later q) (same : q.errors = p.errors) : p.Heard q := by
  obtain ⟨taken, takes⟩ := later.takes
  exact ⟨taken, takes, fun e last _ => .inl (same ▸ last)⟩

theorem Heard.trans (first : p.Heard q) (second : q.Heard r) : p.Heard r := by
  obtain ⟨s, before, early⟩ := first
  obtain ⟨t, after, late⟩ := second
  refine ⟨s ++ t, before.trans after, fun e last deep => ?_⟩
  rcases late e last deep with last | ⟨item, mem, about⟩ | next
  · rcases early e last deep with last | ⟨item, mem, about⟩ | next
    · exact .inl last
    · exact .inr (.inl ⟨item, List.mem_append_left t mem, about⟩)
    -- What came next then has been taken by now, or still comes next.
    · cases t with
      | nil => exact .inr (.inr fun item head => next item (by
          rw [Counted.head?, after.1]
          exact head))
      | cons item t =>
          have head : q.ahead.head? = some item := by
            rw [Counted.head?, after.1]
            rfl
          exact .inr (.inl ⟨item, by simp, next item head⟩)
  · exact .inr (.inl ⟨item, List.mem_append_right s mem, about⟩)
  · exact .inr (.inr next)

theorem Told.onward (told : p.Told q) (onward : ∃ taken, q.Takes taken r) : p.Told r := by
  obtain ⟨s, before, some, said⟩ := told
  obtain ⟨t, after⟩ := onward
  refine ⟨s ++ t, before.trans after, fun none => some (List.append_eq_nil_iff.mp none).1, ?_⟩
  refine said.imp_right fun ⟨e, mem, item, here, about⟩ => ?_
  exact ⟨e, after.2.subset mem, item, List.mem_append_left t here, about⟩

/-- A complaint about nesting from before counts if it is about what is taken. -/
theorem Heard.told (heard : p.Heard q) (told : q.Told r) : p.Told r := by
  obtain ⟨s, before, early⟩ := heard
  obtain ⟨t, after, some, said⟩ := told
  refine ⟨s ++ t, before.trans after, fun none => some (List.append_eq_nil_iff.mp none).2, ?_⟩
  rcases said with ⟨e, last, deep⟩ | ⟨e, mem, item, here, about⟩
  · have kept : e ∈ r.errors.toList := after.2.subset (Array.mem_toList_iff.mpr
      (Array.mem_of_back? last))
    rcases early e last deep with last | ⟨item, here, about⟩ | next
    · exact .inl ⟨e, last, deep⟩
    · exact .inr ⟨e, kept, item, List.mem_append_left t here, about⟩
    · obtain ⟨item, rest, rfl⟩ := List.exists_cons_of_ne_nil some
      have head : q.ahead.head? = Option.some item := by
        rw [Counted.head?, after.1]
        rfl
      exact .inr ⟨e, kept, item, by simp, next item head⟩
  · exact .inr ⟨e, mem, item, List.mem_append_right s here, about⟩

theorem span_of_head {item : Item} (here : p.ahead.head? = some item) :
    p.span = item.token.span := by
  rw [span, here]

theorem heard_complain (p : Parser) (c : Complaint) : p.Heard (p.complain c) := by
  refine ⟨[], ⟨rfl, (p.later_complainAt _ _).errors⟩, fun e last _ => .inr (.inr ?_)⟩
  intro item here
  have same : e = c.toError p.span p.kind := by simpa [complain, complainAt] using last.symm
  rw [same]
  exact (span_of_head here).symm

theorem heard_complainTooDeep (limit : Nat) (p : Parser) :
    p.Heard (Level.complainTooDeep limit p) := by
  rcases Level.complainTooDeep_cases limit p with h | h <;> rw [h]
  · exact (Later.refl p).heard rfl
  · exact p.heard_complain _

theorem ahead_ne_nil (here : p.kind ≠ .eof) : p.ahead.toList ≠ [] := by
  obtain ⟨item, head, _⟩ := head_of_kind rfl here
  exact List.ne_nil_of_mem (List.mem_of_head? head)

/-- The current token is the one that is taken. -/
theorem takes_bump (here : p.ahead.toList ≠ []) (kind : NodeKind) (role : Option Role) :
    ∃ item, item.token.span = p.span ∧ p.Takes [item] ((p.start kind).bump role).parser := by
  obtain ⟨item, rest, ahead⟩ := List.exists_cons_of_ne_nil here
  have head : p.ahead.head? = some item := by rw [Counted.head?, ahead]; rfl
  refine ⟨item, (span_of_head head).symm, ?_, ?_⟩
  · rw [Frame.ahead_bump]
    show p.ahead.toList = [item] ++ p.ahead.toList.tail
    rw [ahead]
    rfl
  · rw [Frame.errors_bump]
    exact List.prefix_refl _

/-- A token put aside right behind a complaint about it has been told of. -/
theorem told_bump (here : p.ahead.toList ≠ []) (c : Complaint) (kind : NodeKind)
    (role : Option Role) : p.Told (((p.complain c).start kind).bump role).parser := by
  obtain ⟨item, about, ahead, errors⟩ := takes_bump (p := p.complain c) here kind role
  refine ⟨[item], ⟨ahead, (p.later_complainAt _ _).errors.trans errors⟩, by simp, .inr ?_⟩
  refine ⟨c.toError p.span p.kind, errors.subset ?_, item, by simp, about⟩
  simp [complain, complainAt]

/-- Beyond the nesting limit nothing is said only right behind a complaint about nesting. -/
theorem told_tooDeep (here : p.ahead.toList ≠ []) (limit : Nat) (kind : NodeKind)
    (role : Option Role) :
    p.Told (((Level.complainTooDeep limit p).start kind).bump role).parser := by
  unfold Level.complainTooDeep
  split
  · next last =>
    obtain ⟨e, back, deep⟩ := (Option.any_eq_true _ _).mp last
    obtain ⟨item, _, takes⟩ := takes_bump here kind role
    exact ⟨[item], takes, by simp, .inl ⟨e, back, by simpa using deep⟩⟩
  · exact told_bump here _ kind role

end Parser

/-! ## Every move is heard -/

open JassSyntax.Parser (Heard Told)

theorem Frame.heard_bump (f : Frame) (role : Option Role) :
    f.parser.Heard (f.bump role).parser :=
  (Parser.Later.bump (.refl _)).heard (f.errors_bump role)

theorem Frame.heard_bumps (f : Frame) (n : Nat) : f.parser.Heard (f.bumps n).parser :=
  (Parser.Later.bumps (.refl _)).heard (f.errors_bumps n)

/-- A closer that is not there is no matter of nesting. -/
theorem Frame.heard_close {f : Frame} {closer : Kind} (closes : f.kind.closer = some closer) :
    f.parser.Heard f.close.parser := by
  rcases close_cases closes with ⟨_, h⟩ | ⟨_, span, h⟩ <;> rw [h]
  · exact f.heard_bump _
  · refine ⟨[], ⟨rfl, (f.parser.later_complainAt _ _).errors⟩, fun e last deep => ?_⟩
    have same : e = (Complaint.unclosed f.kind closer).toError span f.parser.kind := by
      simpa [insertMissing, attach, flush, Parser.complainAt] using last.symm
    rw [same] at deep
    cases deep

mutual

theorem Reads.heard : ∀ {p q : Parser} {t : Tree}, Reads p t q → p.Heard q
  | p, _, _, .leaf here => (Reads.leaf here).later.heard (by simp only [Parser.takeLeaf, here]; rfl)
  | _, _, _, .node _ _ grown => grown.heard
  | _, _, _, .around (q := q) _ _ first grown =>
      (first.heard.trans (((Parser.Later.refl q).pending []).heard rfl)).trans grown.heard
  | p, _, _, .absent => p.heard_complain _
  | p, _, _, .stray (c := c) _ grown =>
      ((p.heard_complain c).trans (((p.complain c).start .error).heard_bump none)).trans grown.heard
  | p, _, _, @Reads.tooDeep _ limit _ _ =>
      (p.heard_complainTooDeep limit).trans
        (((Level.complainTooDeep limit p).start .error).heard_bumps _)
  | p, _, _, .absentTooDeep => p.heard_complainTooDeep _
  | _, _, _, .noticing read => read.heard
  | _, _, _, .nested read => read.heard

theorem Grows.heard : ∀ {f g : Frame}, Grows f g → f.parser.Heard g.parser
  | f, _, .refl _ => (Parser.Later.refl f.parser).heard rfl
  | _, _, .bump grown => grown.heard.trans (Frame.heard_bump _ _)
  | _, _, .attach (q := q) grown read =>
      (grown.heard.trans read.heard).trans (((Parser.Later.refl q).pending []).heard rfl)
  | _, _, .notice (g := g) grown => grown.heard.trans (g.parser.later_noticeEnd.heard rfl)
  | _, _, .block (g := g) (h := h) grown closes _ _ inside =>
      have closed := Frame.heard_close
        (f := { h with parser := h.parser.leaveBlock g.parser.openClosers.length })
        (inside.kind ▸ closes)
      have read : g.parser.Heard h.parser := inside.heard
      (grown.heard.trans read).trans closed
  | _, _, .nested (g := g) (h := h) grown inside =>
      have read : g.parser.Heard h.parser := inside.heard
      grown.heard.trans read
  | _, _, .drop grown empty _ => grown.heard.trans empty.heard
  | _, _, .tooDeep grown _ _ => grown.heard.trans (Parser.heard_complainTooDeep _ _)

end

/-! ## What is put aside -/

namespace Frame

variable {f : Frame} {t c : Tree}

theorem holdsError_attach (tidy : f.parser.Tidy) {role : Option Role}
    (mem : c ∈ (f.attach role t).children.toList) (error : c.HoldsError) :
    c ∈ f.children.toList ∨ c = t.withRole role ∧ t.HoldsError := by
  rw [children_attach, List.append_assoc] at mem
  rcases List.mem_append.mp mem with mem | mem
  · exact .inl mem
  · rcases List.mem_append.mp mem with mem | mem
    · exact absurd error (tidy.pending c mem).not_holdsError
    · obtain rfl := List.mem_singleton.mp mem
      exact .inr ⟨rfl, (holdsError_withRole _ _).mp error⟩

theorem holdsError_bump (tidy : f.parser.Tidy) {role : Option Role}
    (mem : c ∈ (f.bump role).children.toList) (error : c.HoldsError) : c ∈ f.children.toList := by
  cases head : f.parser.ahead.head? with
  | none =>
      rw [bump_of_none head, children_flush] at mem
      rcases List.mem_append.mp mem with mem | mem
      · exact mem
      · exact absurd error (tidy.pending c mem).not_holdsError
  | some item =>
      rw [children_bump head] at mem
      simp only [List.mem_append, List.mem_singleton] at mem
      rcases mem with ((mem | mem) | mem) | rfl
      · exact mem
      · exact absurd error (tidy.pending c mem).not_holdsError
      · exact absurd error ((tidy.of_head head).comments c mem).not_holdsError
      · exact absurd error (not_holdsError_token _ _)

theorem holdsError_close (tidy : f.parser.Tidy) {closer : Kind}
    (closes : f.kind.closer = some closer) (mem : c ∈ f.close.children.toList)
    (error : c.HoldsError) : c ∈ f.children.toList := by
  rcases close_cases closes with ⟨_, h⟩ | ⟨_, span, h⟩ <;> rw [h] at mem
  · exact holdsError_bump tidy mem error
  · exact (holdsError_attach (f := { f with parser := f.parser.complainAt span _ })
      (tidy.complainAt _ _) mem error).resolve_right fun absent =>
        not_holdsError_missing _ _ _ absent.2

/-- Of a node that is no error node itself, a child holds the error. -/
theorem holdsError_finish (inner : f.kind ≠ .error) (error : f.finish.1.HoldsError) :
    ∃ c ∈ f.children.toList, c.HoldsError := by
  rcases holdsError_iff.mp error with same | below
  · exact absurd (Option.some.inj same) inner
  · exact below

end Frame

mutual

/-- Where something is put aside, it has been told of. -/
theorem Reads.told : ∀ {p q : Parser} {t : Tree}, Reads p t q → p.Tidy → t.HoldsError → p.Told q
  | _, _, _, .leaf here, _, error => by
      simp only [Parser.takeLeaf, here] at error
      exact absurd error (not_holdsError_token _ _)
  | p, _, _, .node (f := f) kind construct grown, tidy, error => by
      have inner : f.kind ≠ .error := grown.kind ▸ NodeKind.ne_error construct
      obtain ⟨c, mem, error⟩ := Frame.holdsError_finish inner error
      rcases grown.told tidy c mem error with old | told
      · cases old
      · exact told
  | p, _, _, @Reads.around _ q t role f kind construct first grown, tidy, error => by
      have inner : f.kind ≠ .error := grown.kind ▸ NodeKind.ne_error construct
      have between := first.tidy tidy
      obtain ⟨c, mem, error⟩ := Frame.holdsError_finish inner error
      have begun : p.Heard ((q.start kind).attach role t).parser :=
        first.heard.trans (((Parser.Later.refl q).pending []).heard rfl)
      rcases grown.told (Frame.tidy_attach between _ _) c mem error with old | told
      · rcases Frame.holdsError_attach (f := q.start kind) between old error with none | ⟨_, held⟩
        · cases none
        · exact (first.told tidy held).onward
            (((Parser.Later.refl q).pending []).trans grown.later).takes
      · exact begun.told told
  | _, _, _, .absent, _, error => absurd error (not_holdsError_missing _ _ _)
  | _, _, _, .stray (c := c) here grown, _, _ =>
      (Parser.told_bump (Parser.ahead_ne_nil here) c .error none).onward grown.later.takes
  | p, _, _, @Reads.tooDeep _ limit n here, _, _ =>
      let first := ((Level.complainTooDeep limit p).start .error).bump
      have rest : first.parser.Later (first.bumps n).parser := Parser.Later.bumps (.refl _)
      (Parser.told_tooDeep here limit .error none).onward rest.takes
  | _, _, _, .absentTooDeep, _, error => absurd error (not_holdsError_missing _ _ _)
  | _, _, _, .noticing read, tidy, error | _, _, _, .nested read, tidy, error =>
      read.told ⟨tidy.pending, tidy.ahead, tidy.trailing⟩ error

theorem Grows.told : ∀ {f g : Frame}, Grows f g → f.parser.Tidy →
    ∀ c ∈ g.children.toList, c.HoldsError → c ∈ f.children.toList ∨ f.parser.Told g.parser
  | _, _, .refl _, _, c, mem, _ => .inl mem
  | _, _, .bump (g := g) grown, tidy, c, mem, error =>
      (grown.told tidy c (Frame.holdsError_bump (grown.tidy tidy) mem error) error).imp_right
        fun told => told.onward (Parser.Later.bump (f := g) (.refl _)).takes
  | f, _, .attach (g := g) (q := q) grown read, tidy, c, mem, error => by
      have before := grown.tidy tidy
      have behind : q.Later { q with pending := [] } := (Parser.Later.refl q).pending []
      rcases Frame.holdsError_attach (f := { g with parser := q }) (read.tidy before) mem error
        with old | ⟨_, held⟩
      · exact (grown.told tidy c old error).imp_right fun told =>
          told.onward (read.later.trans behind).takes
      · exact .inr ((grown.heard.told (read.told before held)).onward behind.takes)
  | _, _, .notice (g := g) grown, tidy, c, mem, error =>
      (grown.told tidy c mem error).imp_right fun told => told.onward g.parser.later_noticeEnd.takes
  | _, _, @Grows.block _ g h closers _ grown closes _ _ inside, tidy, c, mem, error => by
      let left : Frame := { h with parser := h.parser.leaveBlock g.parser.openClosers.length }
      have before := grown.tidy tidy
      have entered : (g.parser.enterBlock closers).Tidy :=
        ⟨before.pending, before.ahead, before.trailing⟩
      have after := inside.tidy entered
      have closes' : left.kind.closer = some _ := inside.kind ▸ closes
      have read : ∃ taken, g.parser.Takes taken h.parser := inside.later.takes
      have closed : ∃ taken, h.parser.Takes taken left.close.parser :=
        (Parser.Later.close (f := left) (.refl _) closes').takes
      have old := Frame.holdsError_close (f := left) ⟨after.pending, after.ahead, after.trailing⟩
        closes' mem error
      rcases inside.told entered c old error with old | held
      · exact (grown.told tidy c old error).imp_right fun told => (told.onward read).onward closed
      · have held : g.parser.Told h.parser := held
        exact .inr ((grown.heard.told held).onward closed)
  | _, _, .nested (g := g) (h := h) grown inside, tidy, c, mem, error => by
      have before := grown.tidy tidy
      have read : ∃ taken, g.parser.Takes taken h.parser := inside.later.takes
      rcases inside.told ⟨before.pending, before.ahead, before.trailing⟩ c mem error with old | held
      · exact (grown.told tidy c old error).imp_right fun told => told.onward read
      · have held : g.parser.Told h.parser := held
        exact .inr (grown.heard.told held)
  | _, _, .drop grown empty _, tidy, c, mem, error =>
      (grown.told tidy c mem error).imp_right fun told => told.onward empty.later.takes
  | _, _, .tooDeep (g := g) grown _ _, tidy, c, mem, error =>
      (grown.told tidy c mem error).imp_right fun told =>
        told.onward (g.parser.later_complainTooDeep _).takes

end

end JassSyntax
