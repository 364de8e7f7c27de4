import JassSyntax.Parse
import JassSyntax.Proofs.Faults.Anchors
import JassSyntax.Proofs.Faults.Reports
import JassSyntax.Proofs.Spans.Programs

/-!
# Where errors are reported

In a text every token lies in the trees that hold it, and all complaints made from some place on
point behind that place. So a statement with something put aside has an error in its span, unless
the nesting limit was complained about before it, and that is the last complaint until its end.
-/

namespace JassSyntax

variable {source : String} {n : Nat}

/-- The second span reaches over the first. -/
def Span.Inside (s t : Span) : Prop :=
  t.start.offset ≤ s.start.offset ∧ s.stop.offset ≤ t.stop.offset

instance (s t : Span) : Decidable (s.Inside t) := inferInstanceAs (Decidable (_ ∧ _))

theorem Span.Inside.trans {s t u : Span} (first : s.Inside t) (second : t.Inside u) : s.Inside u :=
  ⟨Nat.le_trans second.1 first.1, Nat.le_trans first.2 second.2⟩

namespace Tree

variable {t c : Tree}

/-- A child lies in its node. -/
theorem Lies.child_inside (h : t.Lies source) (child : c ∈ t.children) : c.span.Inside t.span := by
  have here := h.here
  have lies : ∀ d ∈ t.children, d.span.start.offset ≤ d.span.stop.offset := fun d mem =>
    (h.of_child mem).here.on.le
  obtain ⟨first, head⟩ : ∃ first, t.children.head? = some first := by
    cases all : t.children with
    | nil => rw [all] at child; cases child
    | cons first rest => exact ⟨first, rfl⟩
  obtain ⟨last, tail⟩ : ∃ last, t.children.getLast? = some last :=
    ⟨_, List.getLast?_eq_some_getLast (List.ne_nil_of_mem child)⟩
  rw [here.tight first last head tail]
  constructor
  · obtain ⟨rest, all⟩ := List.head?_eq_some_iff.mp head
    have ordered := here.ordered
    rw [all] at ordered child
    rcases List.mem_cons.mp child with rfl | mem
    · exact Nat.le_refl _
    · exact Nat.le_trans (lies first (by simp [all])) ((List.pairwise_cons.mp ordered).1 c mem)
  · obtain ⟨before, all⟩ := List.getLast?_eq_some_iff.mp tail
    have ordered := here.ordered
    rw [all] at ordered child
    rcases List.mem_append.mp child with mem | mem
    · exact Nat.le_trans ((List.pairwise_append.mp ordered).2.2 c mem last (by simp))
        (lies last (by simp [all]))
    · rw [List.mem_singleton.mp mem]

theorem Lies.leaf_inside (h : t.Lies source) {x : Token} (leaf : x ∈ t.leaves) :
    x.span.Inside t.span := by
  induction t using children_induction with
  | step t ih =>
      cases t with
      | token => exact List.mem_singleton.mp leaf ▸ ⟨Nat.le_refl _, Nat.le_refl _⟩
      | missing => cases leaf
      | node r k s cs =>
          obtain ⟨c, child, leaf⟩ := mem_leavesAll.mp leaf
          exact (ih c child (h.of_child child) leaf).trans (h.child_inside child)

end Tree

open JassSyntax.Tree

/-! ## The tokens that are taken -/

/-- The tokens of a tree are those of the items that were taken for it. -/
theorem Reads.plainTokens_leaves {p q : Parser} {t : Tree} {taken : List Item} (read : Reads p t q)
    (tidy : p.Tidy) (takes : p.Takes taken q) :
    plainTokens t.leaves = taken.map Item.token := by
  have conserved := read.plainTokens_conserved tidy
  rw [takes.1, List.map_append] at conserved
  exact List.append_cancel_right conserved

theorem Grows.plainTokens_children {p : Parser} {kind : NodeKind} {f : Frame} {taken : List Item}
    (grown : Grows (p.start kind) f) (tidy : p.Tidy) (takes : p.Takes taken f.parser) :
    plainTokens (leavesAll f.children.toList) = taken.map Item.token := by
  have conserved := congrArg plainTokens grown.held_conserved
  have after := grown.tidy tidy
  have begun : (p.start kind).held = p.unplaced := rfl
  rw [begun, Frame.held, plainTokens_append, after.plainTokens_unplaced, tidy.plainTokens_unplaced,
    takes.1, List.map_append] at conserved
  exact List.append_cancel_right conserved

theorem mem_leaves_of_taken {ts : List Token} {taken : List Item}
    (same : plainTokens ts = taken.map Item.token) {item : Item} (mem : item ∈ taken) :
    item.token ∈ ts := by
  have plain : item.token ∈ plainTokens ts := same ▸ List.mem_map_of_mem mem
  exact (List.mem_filter.mp plain).1

/-! ## What is behind -/

namespace Parser

variable {p : Parser}

/-- All that is ahead lies behind the place where the parser stands. -/
theorem Stands.within (stands : p.Stands source n) {last : Token} (eof : p.eof = some last)
    (ends : n ≤ last.span.start.offset) :
    p.Within fun s => p.lastEnd.offset ≤ s.start.offset where
  ahead item mem := by
    have tree : Tree.token none item.token ∈ p.toCome :=
      List.mem_append_left _ (List.mem_flatMap.mpr ⟨item, mem, by simp [Item.trees]⟩)
    exact stands.laid.start_le _ tree
  eof := ⟨last, eof, Nat.le_trans stands.laid.le ends⟩

end Parser

/-- There is an error in the span of the tree. Or there is a complaint about nesting before the
tree, and whatever is reported later lies behind the tree. -/
def Tree.Reported (t : Tree) (errors : List ParseError) : Prop :=
  (∃ e ∈ errors, e.span.Inside t.span) ∨
    ∃ before e after, errors = before ++ e :: after ∧ e.kind = .nestingTooDeep ∧
      e.span.stop.offset ≤ t.span.start.offset ∧
      ∀ later ∈ after, t.span.stop.offset ≤ later.span.start.offset

theorem Tree.Reported.append {t : Tree} {errors new : List ParseError} (h : t.Reported errors)
    (behind : ∀ e ∈ new, t.span.stop.offset ≤ e.span.start.offset) :
    t.Reported (errors ++ new) := by
  rcases h with ⟨e, mem, inside⟩ | ⟨before, e, after, rfl, deep, ahead, later⟩
  · exact .inl ⟨e, List.mem_append_left new mem, inside⟩
  · refine .inr ⟨before, e, after ++ new, by simp, deep, ahead, fun later' mem => ?_⟩
    rcases List.mem_append.mp mem with mem | mem
    · exact later later' mem
    · exact behind later' mem

theorem Tree.reported_withRole (r : Option Role) (t : Tree) (errors : List ParseError) :
    (t.withRole r).Reported errors ↔ t.Reported errors := by
  rw [Reported, Reported, span_withRole]

/-! ## Programs -/

namespace Program

open Scanner (Ended)

variable {tokens : List Token} {stop : Position} {f : Frame}

/-- A round takes nothing, or it puts one more tree into the program. -/
theorem step_cases {inner : Level} (traced : inner.Traced) (f : Frame) :
    (step inner f).1 = f ∨ ∃ t q, Reads f.parser t q ∧
      (step inner f).1 = { f with parser := q }.attach none t := by
  unfold step
  dsimp only
  split
  · exact .inl rfl
  next inside =>
  split
  · exact .inr ⟨_, _, Statement.statement_reads traced f.parser, rfl⟩
  · exact .inr ⟨_, _, .stray inside (.refl _), rfl⟩

/-- Where the end of input of a text lies. -/
theorem eof_of_ended (ended : Ended source tokens stop) {p : Parser}
    (later : (Parser.ofTokens tokens).Later p) :
    ∃ last, p.eof = some last ∧ last.span = Span.empty stop := by
  obtain ⟨last, found, span⟩ := ended.find?_eof
  exact ⟨last, later.eof.trans ((Items.eof_group #[] #[] tokens).trans found), span⟩

/-- What is to come is behind what has been read. -/
theorem within_behind (ended : Ended source tokens stop) {p : Parser}
    (later : (Parser.ofTokens tokens).Later p) (stands : p.Stands source stop.offset) :
    p.Within fun s => p.lastEnd.offset ≤ s.start.offset := by
  obtain ⟨last, eof, span⟩ := eof_of_ended ended later
  exact stands.within eof (Nat.le_of_eq (by rw [span]; rfl))

/-- If nesting has been complained about last, then about something in the program so far, or about
the token that comes next. -/
theorem hushed_cases (ended : Ended source tokens stop)
    (grown : Grows ((Parser.ofTokens tokens).start .program) f) {e : ParseError}
    (last : f.parser.errors.back? = some e) (deep : e.kind = .nestingTooDeep) :
    e.span.stop.offset ≤ f.parser.lastEnd.offset ∨
      ∀ item, f.parser.ahead.head? = some item → item.token.span = e.span := by
  obtain ⟨taken, takes, early⟩ := grown.heard
  rcases early e last deep with first | ⟨item, mem, about⟩ | next
  · cases first
  · have tokens := grown.plainTokens_children (Parser.tidy_ofTokens tokens) takes
    have laid := grown.laid (stands_ofTokens ended) rfl (Frame.laid_start _ .program)
    obtain ⟨c, child, leaf⟩ := mem_leavesAll.mp (mem_leaves_of_taken tokens mem)
    have inside := (laid.lies c child).leaf_inside leaf
    rw [about] at inside
    exact .inl (Nat.le_trans inside.2 (laid.le_stop c child))
  · exact .inr next

/-- A statement in which something is put aside. -/
theorem reported_child (ended : Ended source tokens stop)
    (grown : Grows ((Parser.ofTokens tokens).start .program) f) {t : Tree} {q : Parser}
    (read : Reads f.parser t q) (error : t.HoldsError) : t.Reported q.errors.toList := by
  have tidy := grown.tidy (Parser.tidy_ofTokens tokens)
  have stands := grown.stands (stands_ofTokens ended)
  obtain ⟨m, waiting, before, lies, after⟩ := (read.laid stands (grown.pending_nil rfl)).split
  obtain ⟨taken, takes, some, said⟩ := read.told tidy error
  have same := read.plainTokens_leaves tidy takes
  have inside : ∀ item ∈ taken, item.token.span.Inside t.span := fun item mem =>
    lies.leaf_inside (mem_leaves_of_taken same mem)
  rcases said with ⟨e, last, deep⟩ | ⟨e, mem, item, here, about⟩
  · have kept : e ∈ q.errors.toList :=
      takes.2.subset (Array.mem_toList_iff.mpr (Array.mem_of_back? last))
    rcases hushed_cases ended grown last deep with passed | next
    · by_cases heard : ∃ e ∈ q.errors.toList, e.span.Inside t.span
      · exact .inl heard
      -- What is said in the statement points into it or behind it.
      have behind := within_behind ended (grown.later.trans read.later) (read.stands stands)
      have around : f.parser.Within fun s =>
          s.Inside t.span ∨ t.span.stop.offset ≤ s.start.offset := by
        refine ⟨fun item mem => ?_, ?_⟩
        · rw [takes.1] at mem
          rcases List.mem_append.mp mem with mem | mem
          · exact .inl (inside item mem)
          · exact .inr (Nat.le_trans after (behind.ahead item mem))
        · obtain ⟨z, eof, later⟩ := behind.eof
          exact ⟨z, read.later.eof ▸ eof, .inr (Nat.le_trans after later)⟩
      obtain ⟨new, errors, placed⟩ := read.points tidy around
      obtain ⟨old, split⟩ := List.getLast?_eq_some_iff.mp
        (show f.parser.errors.toList.getLast? = Option.some e by
          rw [Array.getLast?_toList]; exact last)
      refine .inr ⟨old, e, new, by rw [errors, split]; simp, deep,
        Nat.le_trans passed (Nat.le_trans waiting.le before), fun later mem => ?_⟩
      refine (placed later mem).resolve_left fun inside => heard ⟨later, ?_, inside⟩
      rw [errors]
      exact List.mem_append_right _ mem
    · obtain ⟨item, rest, rfl⟩ := List.exists_cons_of_ne_nil some
      have head : f.parser.ahead.head? = Option.some item := by
        rw [Counted.head?, takes.1]
        rfl
      exact .inl ⟨e, kept, next item head ▸ inside item (by simp)⟩
  · exact .inl ⟨e, mem, about ▸ inside item here⟩

/-- Every statement read so far is reported. -/
theorem loop_reported (ended : Ended source tokens stop) {inner : Level} (traced : inner.Traced) :
    let start := (Parser.ofTokens tokens).start .program
    ∀ t ∈ (start.loop (step inner)).children.toList, t.HoldsError →
      t.Reported (start.loop (step inner)).parser.errors.toList := by
  intro start
  refine (Frame.loop_keeps (I := fun f => Grows start f ∧ ∀ t ∈ f.children.toList, t.HoldsError →
    t.Reported f.parser.errors.toList) ?_ ⟨.refl start, fun t mem => by cases mem⟩).2
  rintro f ⟨grown, reported⟩
  refine ⟨grown.trans (step_grows traced f), ?_⟩
  rcases step_cases traced f with same | ⟨t, q, read, next⟩
  · rw [same]
    exact reported
  rw [next]
  intro c mem error
  have tidy := grown.tidy (Parser.tidy_ofTokens tokens)
  have stands := grown.stands (stands_ofTokens ended)
  have laid := grown.laid (stands_ofTokens ended) rfl (Frame.laid_start _ .program)
  rcases Frame.holdsError_attach (f := { f with parser := q }) (read.tidy tidy) mem error
    with old | ⟨rfl, held⟩
  · obtain ⟨new, errors, placed⟩ := read.points tidy (within_behind ended grown.later stands)
    show c.Reported q.errors.toList
    rw [errors]
    exact (reported c old error).append fun e mem =>
      Nat.le_trans (laid.le_stop c old) (placed e mem)
  · refine (Tree.reported_withRole _ _ _).mpr ?_
    show t.Reported q.errors.toList
    exact reported_child ended grown read held

theorem parseWithin_reported (limit : Nat) (ended : Ended source tokens stop) :
    ∀ t ∈ (parseWithin limit tokens).1.children, t.HoldsError →
      t.Reported (parseWithin limit tokens).2 := by
  let start := (Parser.ofTokens tokens).start .program
  have grown : Grows start (start.loop (step (.stack limit limit))) := loop_grows limit tokens
  have tidy := grown.tidy (Parser.tidy_ofTokens tokens)
  have ahead := tidy.ahead_eq_nil (loop_current (Level.stack_progresses limit limit) start)
  have children : (parseWithin limit tokens).1.children = _ :=
    children_finish (grown.pending_nil rfl) ahead
  intro t mem error
  rw [children] at mem
  rcases List.mem_append.mp mem with mem | mem
  · exact loop_reported ended (Level.stack_traced limit limit) t mem error
  · rw [Parser.toCome, ahead, List.flatMap_nil, List.nil_append] at mem
    exact absurd error (tidy.trailing t mem).not_holdsError

end Program

/-- **What is put aside is reported, unless nesting was complained about right before.** If some
part of a statement of a text was put aside, then one of the errors lies in the span of the
statement; or an error about nesting lies before the statement, and all errors listed after that
one lie behind the statement. -/
theorem parse_reported (source : String) {t : Tree} (statement : t ∈ (parse source).tree.children)
    (aside : ∃ e ∈ t.elements, e.nodeKind? = some .error) :
    (∃ e ∈ (parse source).parseErrors, e.span.Inside t.span) ∨
      ∃ before e after, (parse source).parseErrors = before ++ e :: after ∧
        e.kind = .nestingTooDeep ∧ e.span.stop.offset ≤ t.span.start.offset ∧
        ∀ later ∈ after, t.span.stop.offset ≤ later.span.start.offset :=
  Program.parseWithin_reported Program.maxDepth (scan_ended source) t statement aside

/-- A bracket that nothing has opened, behind a statement. -/
theorem parse_reported_bracket :
    ∃ t ∈ (parse "x = 1 )").tree.children, (∃ e ∈ t.elements, e.nodeKind? = some .error) ∧
      ((∃ e ∈ (parse "x = 1 )").parseErrors, e.span.Inside t.span) ∨
        ∃ before e after, (parse "x = 1 )").parseErrors = before ++ e :: after ∧
          e.kind = .nestingTooDeep ∧ e.span.stop.offset ≤ t.span.start.offset ∧
          ∀ later ∈ after, t.span.stop.offset ≤ later.span.start.offset) := by
  have found : ∃ t ∈ (parse "x = 1 )").tree.children,
      ∃ e ∈ t.elements, e.nodeKind? = some .error := by decide +kernel
  obtain ⟨t, statement, aside⟩ := found
  exact ⟨t, statement, aside, parse_reported "x = 1 )" statement aside⟩

end JassSyntax
