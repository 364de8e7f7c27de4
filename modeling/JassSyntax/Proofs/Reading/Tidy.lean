import JassSyntax.Proofs.Reading.Constructs
import JassSyntax.Proofs.Reading.Items
import JassSyntax.Proofs.Tree.Elements

/-!
# Comments and tokens keep apart

What waits in front of a token is a comment, and what the grammar decides by is none. Reading keeps
it so, and the only comments in what it reads are those that waited.
-/

namespace JassSyntax

/-- Only comments wait, and only significant tokens are ahead. -/
structure Parser.Tidy (p : Parser) : Prop where
  pending : ∀ t ∈ p.pending, t.Comment
  ahead : ∀ item ∈ p.ahead.toList, item.Tidy
  trailing : ∀ t ∈ p.trailing, t.Comment

namespace Parser

variable {p q : Parser}

theorem tidy_ofTokens (ts : List Token) : (ofTokens ts).Tidy := by
  have tidy := Items.group_tidy #[] #[] ts (by simp) (by simp)
  exact ⟨by simp [ofTokens], tidy.1, tidy.2⟩

theorem Tidy.later (tidy : p.Tidy) (later : p.Later q)
    (pending : ∀ t ∈ q.pending, t.Comment) : q.Tidy where
  pending := pending
  ahead item h := tidy.ahead item (later.ahead.subset h)
  trailing := by rw [later.trailing]; exact tidy.trailing

theorem Tidy.of_head {item : Item} (tidy : p.Tidy) (h : p.ahead.head? = some item) : item.Tidy :=
  tidy.ahead item (List.mem_of_head? h)

theorem Tidy.complainAt (tidy : p.Tidy) (span : Span) (c : Complaint) :
    (p.complainAt span c).Tidy :=
  tidy.later (p.later_complainAt span c) tidy.pending

theorem Tidy.complainTooDeep (tidy : p.Tidy) (limit : Nat) :
    (Level.complainTooDeep limit p).Tidy := by
  refine tidy.later (p.later_complainTooDeep limit) ?_
  rcases Level.complainTooDeep_cases limit p with h | h <;> rw [h] <;> exact tidy.pending

/-- At the end of input nothing is ahead. -/
theorem Tidy.ahead_eq_nil (tidy : p.Tidy) (h : p.kind = .eof) : p.ahead.toList = [] := by
  unfold kind at h
  split at h
  · next item here =>
    have token := (tidy.of_head here).token
    simp [Token.isSignificant, h] at token
  · next none => exact List.head?_eq_none_iff.mp none

/-- Behind the end of input there is nothing else. -/
theorem Tidy.kind_eof (tidy : p.Tidy) (later : p.Later q) (h : p.kind = .eof) : q.kind = .eof := by
  have none : q.ahead.toList = [] := by
    have suffix := later.ahead
    rw [tidy.ahead_eq_nil h] at suffix
    exact List.suffix_nil.mp suffix
  rw [kind, Counted.head?, none]
  rfl

end Parser

namespace Frame

variable {f : Frame}

theorem tidy_attach (tidy : f.parser.Tidy) (role : Option Role) (t : Tree) :
    (f.attach role t).parser.Tidy :=
  tidy.later (Parser.Later.attach (.refl _)) (by simp [attach, flush])

theorem tidy_bump (tidy : f.parser.Tidy) (role : Option Role) : (f.bump role).parser.Tidy :=
  tidy.later (Parser.Later.bump (.refl _)) (by simp [f.pending_bump])

theorem tidy_skipAsError (tidy : f.parser.Tidy) : f.skipAsError.parser.Tidy :=
  tidy.later (Parser.Later.skipAsError (.refl _)) (by simp [skipAsError, child, attach, flush])

theorem tidy_close {closer : Kind} (tidy : f.parser.Tidy) (closes : f.kind.closer = some closer) :
    f.close.parser.Tidy := by
  rcases close_cases closes with ⟨_, h⟩ | ⟨_, span, h⟩ <;> rw [h]
  · exact tidy_bump tidy _
  · exact tidy_attach (f := { f with parser := _ }) (tidy.complainAt _ _) _ _

theorem tidy_bumps (tidy : f.parser.Tidy) (n : Nat) : (f.bumps n).parser.Tidy := by
  induction n generalizing f with
  | zero => exact tidy
  | succ n ih => exact ih (tidy_bump tidy none)

end Frame

mutual

theorem Reads.tidy : ∀ {p q : Parser} {t : Tree}, Reads p t q → p.Tidy → q.Tidy
  | p, _, _, @Reads.leaf _ item here, tidy => by
      refine tidy.later (Reads.leaf here).later ?_
      intro t ht
      simp only [Parser.takeLeaf, here, List.mem_append] at ht
      rcases ht with ht | ht
      · exact tidy.pending t ht
      · exact (tidy.of_head here).comments t ht
  | _, _, _, .node _ _ grown, tidy => grown.tidy tidy
  | _, _, _, .around _ _ first grown, tidy => grown.tidy (Frame.tidy_attach (first.tidy tidy) _ _)
  | p, _, _, .absent, tidy => tidy.complainAt _ _
  | p, _, _, .stray _ grown, tidy =>
      grown.tidy (Frame.tidy_bump (tidy.complainAt _ _) none)
  | _, _, _, .tooDeep _, tidy => Frame.tidy_bumps (tidy.complainTooDeep _) _
  | _, _, _, .absentTooDeep, tidy => tidy.complainTooDeep _
  | _, _, _, .noticing read, tidy => read.tidy ⟨tidy.pending, tidy.ahead, tidy.trailing⟩
  | _, _, _, .nested read, tidy =>
      have inside := read.tidy ⟨tidy.pending, tidy.ahead, tidy.trailing⟩
      ⟨inside.pending, inside.ahead, inside.trailing⟩

theorem Grows.tidy : ∀ {f g : Frame}, Grows f g → f.parser.Tidy → g.parser.Tidy
  | _, _, .refl _, tidy => tidy
  | _, _, .bump grown, tidy => Frame.tidy_bump (grown.tidy tidy) _
  | _, _, .attach grown read, tidy => Frame.tidy_attach (read.tidy (grown.tidy tidy)) _ _
  | _, _, .notice grown, tidy =>
      have before := grown.tidy tidy
      ⟨before.pending, before.ahead, before.trailing⟩
  | _, _, .block grown closes _ _ inside, tidy =>
      have before := grown.tidy tidy
      have after := inside.tidy ⟨before.pending, before.ahead, before.trailing⟩
      Frame.tidy_close ⟨after.pending, after.ahead, after.trailing⟩ (inside.kind ▸ closes)
  | _, _, .nested grown inside, tidy =>
      have before := grown.tidy tidy
      have after := inside.tidy ⟨before.pending, before.ahead, before.trailing⟩
      ⟨after.pending, after.ahead, after.trailing⟩
  | _, _, .drop grown empty _, tidy => empty.tidy (grown.tidy tidy)
  | _, _, .tooDeep grown _ _, tidy => (grown.tidy tidy).complainTooDeep _

end

/-! ## Comments in trees -/

/-- The tree is no comment, and the comments below it are those of a stream. -/
structure Tree.IsPart (t : Tree) : Prop where
  significant : t.isComment = false
  remarked : t.Remarked

namespace Tree

theorem isPart_token {t : Token} (h : t.isSignificant = true) (role : Option Role) :
    (token role t).IsPart := by
  have plain : (token role t).isComment = false := Token.isTrivia_of_isSignificant h
  refine ⟨plain, remarked_of_children (fun comment => ?_) fun c child => by cases child⟩
  rw [plain] at comment
  cases comment

theorem isPart_missing (role : Option Role) (kind : Kind) (position : Position) :
    (missing role kind position).IsPart :=
  ⟨rfl, remarked_of_children (fun comment => by cases comment) fun c child => by cases child⟩

theorem isPart_ofChildren {kind : NodeKind} (other : kind ≠ .blockComment) (position : Position)
    {ts : List Tree} (below : ∀ t ∈ ts, t.Remarked) : (ofChildren kind position ts).IsPart := by
  have plain : (ofChildren kind position ts).isComment = false := by
    simpa [ofChildren, isComment] using other
  refine ⟨plain, remarked_of_children (fun comment => ?_) below⟩
  rw [plain] at comment
  cases comment

theorem IsPart.withRole {t : Tree} (h : t.IsPart) (role : Option Role) :
    (t.withRole role).IsPart := by
  have plain : (t.withRole role).isComment = false := by rw [isComment_withRole, h.significant]
  refine ⟨plain, remarked_of_children (fun comment => ?_) fun c child => ?_⟩
  · rw [plain] at comment
    cases comment
  · rw [children_withRole] at child
    exact h.remarked.of_child child

end Tree

namespace Frame

/-- The comments below the node are those of a stream. -/
def Remarked (f : Frame) : Prop := ∀ t ∈ f.children.toList, t.Remarked

variable {f : Frame}

theorem remarked_attach {t : Tree} (h : f.Remarked) (tidy : f.parser.Tidy) (role : Option Role)
    (part : t.IsPart) : (f.attach role t).Remarked := by
  intro u mem
  rw [children_attach, List.mem_append, List.mem_append, List.mem_singleton] at mem
  rcases mem with (mem | mem) | rfl
  · exact h u mem
  · exact (tidy.pending u mem).remarked
  · exact (part.withRole role).remarked

theorem remarked_bump (h : f.Remarked) (tidy : f.parser.Tidy) (role : Option Role) :
    (f.bump role).Remarked := by
  intro u mem
  cases head : f.parser.ahead.head? with
  | none =>
      rw [bump_of_none head, children_flush, List.mem_append] at mem
      rcases mem with mem | mem
      · exact h u mem
      · exact (tidy.pending u mem).remarked
  | some item =>
      have before := tidy.of_head head
      rw [children_bump head, List.mem_append, List.mem_append, List.mem_append,
        List.mem_singleton] at mem
      rcases mem with ((mem | mem) | mem) | rfl
      · exact h u mem
      · exact (tidy.pending u mem).remarked
      · exact (before.comments u mem).remarked
      · exact (Tree.isPart_token before.token role).remarked

theorem remarked_bumps (h : f.Remarked) (tidy : f.parser.Tidy) (n : Nat) :
    (f.bumps n).Remarked := by
  induction n generalizing f with
  | zero => exact h
  | succ n ih => exact ih (remarked_bump h tidy none) (tidy_bump tidy none)

theorem remarked_start (p : Parser) (kind : NodeKind) : (p.start kind).Remarked :=
  fun _ mem => by cases mem

theorem isPart_finish (h : f.Remarked) (other : f.kind ≠ .blockComment) : f.finish.1.IsPart :=
  Tree.isPart_ofChildren other _ h

theorem remarked_insertMissing (h : f.Remarked) (tidy : f.parser.Tidy) (role : Option Role)
    (kind : Kind) : (f.insertMissing role kind).Remarked :=
  remarked_attach h tidy role (Tree.isPart_missing _ _ _)

theorem remarked_close {closer : Kind} (h : f.Remarked) (tidy : f.parser.Tidy)
    (closes : f.kind.closer = some closer) : f.close.Remarked := by
  rcases close_cases closes with ⟨_, e⟩ | ⟨_, span, e⟩ <;> rw [e]
  · exact remarked_bump h tidy _
  · exact remarked_insertMissing (f := { f with parser := f.parser.complainAt span _ }) h
      (tidy.complainAt _ _) _ _

end Frame

mutual

/-- What is read is no comment, and the comments in it are those that waited. -/
theorem Reads.isPart : ∀ {p q : Parser} {t : Tree}, Reads p t q → p.Tidy → t.IsPart
  | p, _, _, .leaf here, tidy => by
      simp only [Parser.takeLeaf, here]
      exact Tree.isPart_token (tidy.of_head here).token none
  | _, _, _, .node _ construct grown, tidy =>
      Frame.isPart_finish (grown.remarked tidy (Frame.remarked_start _ _))
        (grown.kind ▸ NodeKind.ne_blockComment construct)
  | _, _, _, @Reads.around _ q _ role _ kind construct first grown, tidy => by
      have after := first.tidy tidy
      have begun := Frame.remarked_attach (Frame.remarked_start q kind) after role
        (first.isPart tidy)
      exact Frame.isPart_finish (grown.remarked (Frame.tidy_attach after _ _) begun)
        (grown.kind ▸ NodeKind.ne_blockComment construct)
  | _, _, _, .absent, _ => Tree.isPart_missing _ _ _
  | p, _, _, .stray (c := c) _ grown, tidy => by
      have after := tidy.complainAt p.span c
      have begun := Frame.remarked_bump (Frame.remarked_start _ .error) after none
      refine Frame.isPart_finish (grown.remarked (Frame.tidy_bump after none) begun) ?_
      rw [grown.kind, Frame.kind_bump]
      exact NodeKind.noConfusion
  | _, _, _, .tooDeep _, tidy =>
      Frame.isPart_finish
        (Frame.remarked_bumps (Frame.remarked_start _ .error) (tidy.complainTooDeep _) _)
        (by rw [Frame.kind_bumps]; exact NodeKind.noConfusion)
  | _, _, _, .absentTooDeep, _ => Tree.isPart_missing _ _ _
  | _, _, _, .noticing read, tidy => read.isPart ⟨tidy.pending, tidy.ahead, tidy.trailing⟩
  | _, _, _, .nested read, tidy => read.isPart ⟨tidy.pending, tidy.ahead, tidy.trailing⟩

theorem Grows.remarked : ∀ {f g : Frame}, Grows f g → f.parser.Tidy → f.Remarked → g.Remarked
  | _, _, .refl _, _, h => h
  | _, _, .bump grown, tidy, h => Frame.remarked_bump (grown.remarked tidy h) (grown.tidy tidy) _
  | _, _, .attach (g := g) (q := q) grown read, tidy, h =>
      have before := grown.tidy tidy
      Frame.remarked_attach (f := { g with parser := q }) (grown.remarked tidy h)
        (read.tidy before) _ (read.isPart before)
  | _, _, .notice grown, tidy, h => grown.remarked tidy h
  | _, _, .block (g := g) (h := k) grown closes _ _ inside, tidy, h => by
      have before := grown.tidy tidy
      have filled := inside.remarked ⟨before.pending, before.ahead, before.trailing⟩
        (grown.remarked tidy h)
      have after := inside.tidy ⟨before.pending, before.ahead, before.trailing⟩
      exact Frame.remarked_close (f := { k with parser := k.parser.leaveBlock _ }) filled
        ⟨after.pending, after.ahead, after.trailing⟩ (inside.kind ▸ closes)
  | _, _, .nested grown inside, tidy, h =>
      have before := grown.tidy tidy
      inside.remarked ⟨before.pending, before.ahead, before.trailing⟩ (grown.remarked tidy h)
  | _, _, .drop grown _ _, tidy, h => grown.remarked tidy h
  | _, _, .tooDeep grown _ _, tidy, h => grown.remarked tidy h

end

namespace Program

theorem mem_children_finish {f : Frame} {t : Tree} : t ∈ (finish f).children ↔
    t ∈ f.children.toList ∨ t ∈ f.parser.pending ∨ t ∈ f.parser.trailing := by
  simp [finish, Tree.children, Frame.flush]

/-- The comments of a program are those of its stream. -/
theorem remarked_parseWithin (limit : Nat) (tokens : List Token) :
    (parseWithin limit tokens).1.Remarked := by
  have before := Parser.tidy_ofTokens tokens
  have grown := loop_grows limit tokens
  have after := grown.tidy before
  refine Tree.remarked_of_children (fun comment => by cases comment) fun t child => ?_
  rcases mem_children_finish.mp child with child | child | child
  · exact grown.remarked before (Frame.remarked_start _ _) t child
  · exact (after.pending t child).remarked
  · exact (after.trailing t child).remarked

end Program

end JassSyntax
