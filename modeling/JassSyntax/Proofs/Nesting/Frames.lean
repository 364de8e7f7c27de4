import Mathlib.Data.List.MinMax
import JassSyntax.Proofs.Reading.Tidy

/-!
# How deep trees nest

A walk over a tree needs as much room as the tree is high. Levels of nesting bound only part of the
height: what a loop puts around the expression read so far, as a member around its base, is no
level. The nesting of a tree is its height if such chains count as one node. Each move of a frame
keeps a bound on it.
-/

namespace JassSyntax

/-- Kinds of node that are put around an expression that has been read: the links of a chain. -/
def NodeKind.isLink : NodeKind → Bool
  | .memberExpression | .indexExpression | .functionCall | .updateExpression
  | .binaryExpression | .assignmentExpression | .expressionList => true
  | _ => false

namespace Tree

mutual

/-- How many steps there are on the longest way from the tree down to a leaf. -/
def height : Tree → Nat
  | token .. | missing .. => 0
  | node _ _ _ cs => heightAll cs

/-- How many steps there are on the longest way down from above the trees. -/
def heightAll : List Tree → Nat
  | [] => 0
  | t :: ts => max (t.height + 1) (heightAll ts)

end

mutual

/-- The height of the tree, if the step from a link of a chain to the next is none. -/
def nesting : Tree → Nat
  | token .. | missing .. => 0
  | node _ k _ cs => nestingAll k.isLink cs

/-- The nesting from above the trees. From a link the step to the first of them is none, comments
aside. -/
def nestingAll (linked : Bool) : List Tree → Nat
  | [] => 0
  | t :: ts =>
    max (t.nesting + if linked && !t.isComment then 0 else 1)
      (nestingAll (linked && t.isComment) ts)

end

@[simp] theorem nesting_withRole (r : Option Role) (t : Tree) :
    (t.withRole r).nesting = t.nesting := by
  cases t <;> simp only [withRole, nesting]

@[simp] theorem height_withRole (r : Option Role) (t : Tree) :
    (t.withRole r).height = t.height := by
  cases t <;> simp only [withRole, height]

theorem nestingAll_append (linked : Bool) (ts us : List Tree) :
    nestingAll linked (ts ++ us) =
      max (nestingAll linked ts) (nestingAll (linked && ts.all isComment) us) := by
  induction ts generalizing linked with
  | nil => simp [nestingAll]
  | cons t ts ih =>
      rw [List.cons_append, nestingAll, nestingAll, ih, Nat.max_assoc, List.all_cons,
        Bool.and_assoc]

/-- Every step counts at most. -/
theorem nestingAll_le {n : Nat} {ts : List Tree} (below : ∀ t ∈ ts, t.nesting < n)
    (linked : Bool) : nestingAll linked ts ≤ n := by
  induction ts generalizing linked with
  | nil => exact Nat.zero_le n
  | cons t ts ih =>
      have first := below t List.mem_cons_self
      have rest := ih (fun u mem => below u (List.mem_cons_of_mem t mem)) (linked && t.isComment)
      rw [nestingAll, Nat.max_le]
      refine ⟨?_, rest⟩
      split <;> omega

theorem Comment.nesting_le {t : Tree} (h : t.Comment) : t.nesting ≤ 1 := by
  cases h with
  | token => exact Nat.zero_le 1
  | block first parts =>
      refine nestingAll_le (fun u mem => ?_) _
      rcases List.mem_cons.mp mem with rfl | mem
      · exact Nat.one_pos
      · obtain ⟨role, part, rfl, _⟩ := parts u mem
        exact Nat.one_pos

/-! ## Chains -/

mutual

/-- How many links there are from the tree on, each the first child of the one before. -/
def chain : Tree → Nat
  | token .. | missing .. => 0
  | node _ k _ cs => if k.isLink then chainAll cs + 1 else 0

/-- How many links there are from the first of the trees on, comments aside. -/
def chainAll : List Tree → Nat
  | [] => 0
  | t :: ts => if t.isComment then chainAll ts else t.chain

end

/-- The length of the longest chain in the tree. -/
def longestChain (t : Tree) : Nat := (t.elements.map chain).foldr max 0

theorem chain_le_longestChain {e t : Tree} (mem : e ∈ t.elements) : e.chain ≤ t.longestChain :=
  List.le_max_of_le' 0 (List.mem_map_of_mem mem) (Nat.le_refl _)

/-- A step that counts for the nesting goes past one chain at most. -/
theorem heightAll_le {n : Nat} {ts : List Tree}
    (each : ∀ t ∈ ts, t.chain ≤ n ∧ t.height ≤ t.nesting * (n + 1) + t.chain) (linked : Bool) :
    heightAll ts ≤ nestingAll linked ts * (n + 1) + if linked then chainAll ts + 1 else 0 := by
  induction ts generalizing linked with
  | nil => exact Nat.zero_le _
  | cons t ts ih =>
      obtain ⟨short, first⟩ := each t List.mem_cons_self
      have rest := ih (fun u mem => each u (List.mem_cons_of_mem t mem)) (linked && t.isComment)
      rw [heightAll, nestingAll, chainAll, Nat.max_le]
      generalize own : (t.nesting + if linked && !t.isComment then 0 else 1) = a
      generalize others : nestingAll (linked && t.isComment) ts = b at rest ⊢
      have left : a * (n + 1) ≤ max a b * (n + 1) := Nat.mul_le_mul_right _ (Nat.le_max_left a b)
      have right : b * (n + 1) ≤ max a b * (n + 1) := Nat.mul_le_mul_right _ (Nat.le_max_right a b)
      generalize max a b * (n + 1) = both at left right ⊢
      rw [← own, Nat.add_mul] at left
      generalize t.nesting * (n + 1) = nested at first left
      cases linked <;> cases comment : t.isComment <;>
        simp only [comment, Bool.true_and, Bool.false_and, Bool.not_true, Bool.not_false,
          Bool.false_eq_true, if_true, if_false, Nat.zero_mul, Nat.one_mul] at left rest ⊢ <;>
        omega

/-- **Height and nesting.** What the nesting leaves out of the height are chains. -/
theorem height_le {n : Nat} {t : Tree} (each : ∀ e ∈ t.elements, e.chain ≤ n) :
    t.height ≤ t.nesting * (n + 1) + t.chain := by
  induction t using children_induction with
  | step t ih =>
      cases t with
      | token | missing => exact Nat.zero_le _
      | node r k s cs =>
          rw [height, nesting, chain]
          refine heightAll_le (fun c child => ?_) k.isLink
          have below : ∀ e ∈ c.elements, e.chain ≤ n := fun e mem =>
            each e (mem_elements_below child mem)
          exact ⟨below c (self_mem_elements c), ih c child below⟩

end Tree

/-! ## Readings and frames -/

/-- The tree that was read is no comment and nests no deeper than `n`. -/
structure Shallow (n : Nat) (r : Tree × Parser) : Prop where
  significant : r.1.isComment = false
  tidy : r.2.Tidy
  nesting : r.1.nesting ≤ n

/-- The node nests no deeper than `n`, which is enough for comments and stray tokens. -/
structure Frame.Low (n : Nat) (f : Frame) : Prop where
  room : 3 ≤ n
  other : f.kind ≠ .blockComment
  tidy : f.parser.Tidy
  nesting : Tree.nestingAll f.kind.isLink f.children.toList ≤ n

theorem Shallow.mono {m n : Nat} {r : Tree × Parser} (h : Shallow m r) (le : m ≤ n) :
    Shallow n r :=
  ⟨h.significant, h.tidy, Nat.le_trans h.nesting le⟩

namespace Frame

variable {m n : Nat} {f : Frame} {p : Parser}

theorem low_start {kind : NodeKind} (room : 3 ≤ n) (tidy : p.Tidy)
    (other : kind ≠ .blockComment) : (p.start kind).Low n :=
  ⟨room, other, tidy, Nat.zero_le n⟩

/-- More children that are not too deep. -/
theorem nestingAll_children_le {before after : List Tree}
    (nesting : Tree.nestingAll f.kind.isLink before ≤ n) (below : ∀ t ∈ after, t.nesting < n) :
    Tree.nestingAll f.kind.isLink (before ++ after) ≤ n := by
  rw [Tree.nestingAll_append, Nat.max_le]
  exact ⟨nesting, Tree.nestingAll_le below _⟩

theorem nesting_bump (two : 2 ≤ n) (tidy : f.parser.Tidy)
    (nesting : Tree.nestingAll f.kind.isLink f.children.toList ≤ n) (role : Option Role) :
    Tree.nestingAll f.kind.isLink (f.bump role).children.toList ≤ n := by
  have comments : ∀ ts : List Tree, (∀ t ∈ ts, t.Comment) → ∀ t ∈ ts, t.nesting < n := by
    intro ts comments t mem
    have le := (comments t mem).nesting_le
    omega
  have waiting := comments _ tidy.pending
  cases head : f.parser.ahead.head? with
  | none =>
      rw [bump_of_none head, children_flush]
      exact nestingAll_children_le nesting waiting
  | some item =>
      rw [children_bump head]
      apply nestingAll_children_le
      · apply nestingAll_children_le
        · exact nestingAll_children_le nesting waiting
        · exact comments _ (tidy.of_head head).comments
      · intro t mem
        rw [List.mem_singleton.mp mem]
        exact Nat.lt_of_lt_of_le Nat.two_pos two

namespace Low

variable (h : f.Low n)
include h

theorem mono (le : n ≤ m) : f.Low m :=
  ⟨Nat.le_trans h.room le, h.other, h.tidy, Nat.le_trans h.nesting le⟩

/-- The same node, from where another parser reads on. -/
theorem read_on {q : Parser} (tidy : q.Tidy) : { f with parser := q }.Low n :=
  ⟨h.room, h.other, tidy, h.nesting⟩

theorem finish : Shallow n f.finish where
  significant := by
    rw [Frame.finish, Tree.ofChildren, Tree.isComment]
    exact beq_eq_false_iff_ne.mpr h.other
  tidy := h.tidy
  nesting := h.nesting

theorem attach {role : Option Role} {t : Tree} (deep : t.nesting < n) :
    (f.attach role t).Low n := by
  refine ⟨h.room, h.other, tidy_attach h.tidy role t, ?_⟩
  rw [children_attach]
  apply nestingAll_children_le
  · apply nestingAll_children_le h.nesting
    intro u mem
    have le := (h.tidy.pending u mem).nesting_le
    have room := h.room
    omega
  · intro u mem
    rw [List.mem_singleton.mp mem, Tree.nesting_withRole]
    exact deep

theorem child {role : Option Role} {read : Parser → Tree × Parser}
    (shallow : Shallow m (read f.parser)) (deep : m < n) : (f.child role read).Low n :=
  (h.read_on shallow.tidy).attach (Nat.lt_of_le_of_lt shallow.nesting deep)

theorem bump {role : Option Role} : (f.bump role).Low n := by
  refine ⟨h.room, f.kind_bump role ▸ h.other, tidy_bump h.tidy role, ?_⟩
  rw [kind_bump]
  exact nesting_bump (Nat.le_of_succ_le h.room) h.tidy h.nesting role

theorem bumps (count : Nat) : (f.bumps count).Low n := by
  induction count generalizing f with
  | zero => exact h
  | succ count ih => exact ih h.bump

theorem second : f.second.2.Low n := by
  rw [second_eq]
  apply h.read_on
  rcases f.parser.second_looked with looked | looked <;> rw [looked]
  · exact h.tidy
  · exact ⟨h.tidy.pending, h.tidy.ahead, h.tidy.trailing⟩

theorem eat {kind : Kind} : (f.eat kind).1.Low n := by
  rcases f.eat_cases kind with ⟨_, e⟩ | ⟨_, e⟩ <;> rw [e]
  · exact h.bump
  · exact h

theorem complainAt (span : Span) (c : Complaint) :
    { f with parser := f.parser.complainAt span c }.Low n :=
  h.read_on (h.tidy.complainAt span c)

/-! ### Repairs -/

theorem insertMissing {role : Option Role} {kind : Kind} : (f.insertMissing role kind).Low n :=
  h.attach (Nat.lt_of_lt_of_le (Nat.zero_lt_succ 2) h.room)

/-- An error node around one token fits into any node. -/
theorem skipAsError : f.skipAsError.Low n := by
  let skipped := (f.parser.start .error).bump
  have flat : skipped.finish.1.nesting ≤ 2 := by
    show Tree.nestingAll skipped.kind.isLink skipped.children.toList ≤ 2
    rw [kind_bump]
    exact nesting_bump (f := f.parser.start .error) (Nat.le_refl 2) h.tidy (Nat.zero_le 2) none
  apply (h.read_on (tidy_bump (f := f.parser.start .error) h.tidy none)).attach
  exact Nat.lt_of_le_of_lt flat h.room

theorem demand {wanted : Kind} {role : Option Role} {c : Complaint} :
    (f.demand wanted role c).1.Low n := by
  rcases f.demand_cases wanted role c with ⟨_, e⟩ | ⟨_, q, looked, e⟩
  · rw [e]
    exact h.bump
  · have tidy : q.Tidy := by
      rcases looked with rfl | rfl
      · exact h.tidy
      · exact ⟨h.tidy.pending, h.tidy.ahead, h.tidy.trailing⟩
    have complained := (h.read_on tidy).complainAt f.parser.span c
    rcases e with ⟨_, _, e⟩ | e <;> rw [e]
    · exact complained.skipAsError.bump
    · exact complained.insertMissing

theorem expect {wanted : Kind} {role : Option Role} : (f.expect wanted role).Low n := h.demand

theorem expectName {role : Role} : (f.expectName role).Low n := h.demand

theorem close : f.close.Low n := by
  cases closes : f.kind.closer with
  | none =>
      unfold Frame.close
      rw [closes]
      exact h
  | some closer =>
      rcases close_cases closes with ⟨_, e⟩ | ⟨_, span, e⟩ <;> rw [e]
      · exact h.bump
      · exact (h.complainAt span _).insertMissing

/-! ### Loops and blocks -/

theorem loop {step : Frame → Frame × Bool} (each : ∀ g : Frame, g.Low n → (step g).1.Low n) :
    (f.loop step).Low n :=
  loop_keeps each h

theorem commaSeparated {part : Frame → Frame} (each : ∀ g : Frame, g.Low n → (part g).Low n) :
    (f.commaSeparated part).Low n :=
  h.loop fun g low => (each g low).eat

theorem bumpWhile {role : Option Role} {passes : Kind → Bool} :
    (f.bumpWhile role passes).Low n := by
  apply h.loop
  intro g low
  split
  · exact low.bump
  · exact low

theorem within {closers : List Kind} {read : Frame → Frame}
    (inside : ∀ g : Frame, g.Low n → (read g).Low n) : (f.within closers read).Low n := by
  have entered := h.read_on (q := f.parser.enterBlock closers)
    ⟨h.tidy.pending, h.tidy.ahead, h.tidy.trailing⟩
  have after := (inside _ entered).tidy
  exact (inside _ entered).read_on ⟨after.pending, after.ahead, after.trailing⟩

end Low

/-- The next link of a chain nests no deeper than the chain. -/
theorem low_link {kind : NodeKind} {role : Option Role} {t : Tree} (room : 3 ≤ n)
    (first : Shallow n (t, p)) (link : kind.isLink = true) :
    ((p.start kind).attach role t).Low n := by
  have other : kind ≠ .blockComment := by
    rintro rfl
    cases link
  refine ⟨room, other, tidy_attach (f := p.start kind) first.tidy role t, ?_⟩
  rw [children_attach, Tree.nestingAll_append, Nat.max_le]
  constructor
  · apply Tree.nestingAll_le
    intro u mem
    have le := (first.tidy.pending u mem).nesting_le
    omega
  · have pending : p.pending.all Tree.isComment = true :=
      List.all_eq_true.mpr fun u mem => (first.tidy.pending u mem).isComment
    show Tree.nestingAll (kind.isLink && (#[].toList ++ p.pending).all Tree.isComment) _ ≤ n
    rw [link, List.nil_append, pending, Tree.nestingAll, Tree.isComment_withRole, first.significant,
      Tree.nesting_withRole]
    exact Nat.max_le.mpr ⟨first.nesting, Nat.zero_le n⟩

end Frame

end JassSyntax
