import JassSyntax.Proofs.Faults.Anchors
import JassSyntax.Proofs.Recovery.Constructs
import JassSyntax.Proofs.Tree.Unclosed
import JassSyntax.Proofs.Views.Trees

/-!
# What is reported about open constructs

For every construct that is not closed one error is recorded, at the moment when its closer should
have come. What the error says can be read off the finished tree: which constructs lack their
closers, in the order in which they end, what the first token behind each of them is, and why the
construct was not read on behind that token.
-/

namespace JassSyntax

open JassSyntax.Tree

/-! ## What is said about a construct -/

namespace Tree.Site

/-- Where the construct begins. -/
def opener (site : Site) : Span := ((leadingTokenOf? site.children).map Token.span).getD default

/-- The kind of the first token behind the construct, comments aside, if `rest` comes behind the
tree. -/
def foundBefore (rest : List Token) (site : Site) : Kind :=
  ((plainTokens (after site.way) ++ rest).head?.map Token.kind).getD .eof

/-- The error about the construct, if `rest` comes behind the tree. -/
def errorBefore (rest : List Token) (site : Site) : ParseError :=
  let found := site.foundBefore rest
  let span := if found = .eof then blamed site.opener site.children site.closer else site.opener
  (Complaint.unclosed site.kind site.closer).toError span found

end Tree.Site

/-- A body is read in which the construct ends at the kind: its closer does, and what continues a
conditional does before its last branch. -/
structure Tree.Step.Awaits (s : Step) (k : Kind) : Prop where
  inside : s.child.role = some .body ∨ s.child.role = some .alternative
  ends : s.kind.closer = some k ∨ s.kind = .ifStatement ∧ (k = .kwElseIf ∨ k = .kwElse) ∧
    s.child.nodeKind? ≠ some .elseClause

namespace Tree.Site

/-- The construct is a conditional with its last branch, or lies in such a branch. -/
def PastElse (site : Site) : Prop :=
  site.kind = .ifStatement ∧ (∃ c ∈ site.children, c.nodeKind? = some .elseClause) ∨
    ∃ s ∈ site.way, s.kind = .ifStatement ∧ s.child.nodeKind? = some .elseClause

/-- Why a construct is not read on behind the token `k`: there is none, or it is awaited outside of
the tree, or by a construct around, or a conditional that it cannot continue waits for it. -/
inductive Explained (outer : List Kind) (k : Kind) (site : Site) : Prop
  | ending (none : k = .eof)
  | outer (mem : k ∈ outer)
  | around {s : Step} (mem : s ∈ site.way) (awaits : s.Awaits k)
  | late (branch : k = .kwElseIf ∨ k = .kwElse) (past : site.PastElse)

variable {rest : List Token} {s : Step} {site : Site} {outer : List Kind} {k : Kind}

theorem foundBefore_below : (site.below s).foundBefore rest =
    site.foundBefore (plainTokens (leavesAll s.right) ++ rest) := by
  unfold foundBefore
  rw [below, after, plainTokens_append, List.append_assoc]

theorem errorBefore_below : (site.below s).errorBefore rest =
    site.errorBefore (plainTokens (leavesAll s.right) ++ rest) := by
  unfold errorBefore
  rw [foundBefore_below]
  rfl

theorem Explained.below (h : site.Explained outer k) (s : Step) :
    (site.below s).Explained outer k := by
  cases h with
  | ending none => exact .ending none
  | outer mem => exact .outer mem
  | around mem awaits => exact .around (List.mem_cons_of_mem s mem) awaits
  | late branch past =>
      exact .late branch (past.imp_right fun ⟨t, mem, clause⟩ =>
        ⟨t, List.mem_cons_of_mem s mem, clause⟩)

/-- What stands behind the branch in which a construct lies explains nothing. -/
theorem Explained.right {kind : NodeKind} {left right more : List Tree} {c : Tree}
    (h : (site.below ⟨kind, left, c, right⟩).Explained outer k) :
    (site.below ⟨kind, left, c, right ++ more⟩).Explained outer k := by
  cases h with
  | ending none => exact .ending none
  | outer mem => exact .outer mem
  | around mem awaits =>
      rcases List.mem_cons.mp mem with rfl | mem
      · exact .around List.mem_cons_self ⟨awaits.inside, awaits.ends⟩
      · exact .around (List.mem_cons_of_mem _ mem) awaits
  | late branch past =>
      refine .late branch (past.imp_right ?_)
      rintro ⟨s, mem, clause⟩
      rcases List.mem_cons.mp mem with rfl | mem
      · exact ⟨_, List.mem_cons_self, clause⟩
      · exact ⟨s, List.mem_cons_of_mem _ mem, clause⟩

/-- What a construct waits for is explained by its bodies and further branches. -/
theorem Explained.enclosed {kind : NodeKind} {left right : List Tree} {c : Tree}
    (h : site.Explained (outer ++ kind.awaits) k)
    (inside : c.role = some .body ∨ c.role = some .alternative) :
    (site.below ⟨kind, left, c, right⟩).Explained outer k := by
  cases h with
  | outer mem =>
      rcases List.mem_append.mp mem with mem | mem
      · exact .outer mem
      rcases NodeKind.awaits_cases mem with own | ⟨rfl, branch⟩
      · exact .around List.mem_cons_self ⟨inside, .inl (Option.mem_toList.mp own)⟩
      · by_cases last : c.nodeKind? = some .elseClause
        · exact .late branch (.inr ⟨_, List.mem_cons_self, rfl, last⟩)
        · exact .around List.mem_cons_self ⟨inside, .inr ⟨rfl, branch, last⟩⟩
  | ending none => exact .ending none
  | around mem awaits => exact (Explained.around mem awaits).below _
  | late branch past => exact (Explained.late branch past).below _

end Tree.Site

namespace Tree

open Site

variable {kind : NodeKind} {left cs ds : List Tree} {t : Tree} {rest : List Token}
  {outer : List Kind}

theorem map_errorBefore_append : (unclosedAmong kind left (cs ++ ds)).map (errorBefore rest) =
    (unclosedAmong kind left cs).map (errorBefore (plainTokens (leavesAll ds) ++ rest)) ++
      (unclosedAmong kind (left ++ cs) ds).map (errorBefore rest) := by
  induction cs generalizing left with
  | nil => simp [unclosedAmong]
  | cons c cs ih =>
      rw [List.cons_append, unclosedAmong, unclosedAmong, List.map_append, List.map_append, ih]
      simp [Function.comp_def, errorBefore_below, plainTokens_append]

theorem explained_append
    (first : ∀ site ∈ unclosedAmong kind left cs,
      site.Explained outer (site.foundBefore (plainTokens (leavesAll ds) ++ rest)))
    (second : ∀ site ∈ unclosedAmong kind (left ++ cs) ds,
      site.Explained outer (site.foundBefore rest)) :
    ∀ site ∈ unclosedAmong kind left (cs ++ ds), site.Explained outer (site.foundBefore rest) := by
  intro site mem
  obtain ⟨l, c, r, inner, whole, below, rfl⟩ := mem_unclosedAmong.mp mem
  rcases List.append_eq_append_iff.mp whole with ⟨l', rfl, rfl⟩ | ⟨more, rfl, cut⟩
  · exact second _ (mem_unclosedAmong.mpr ⟨l', c, r, inner, rfl, below, by simp⟩)
  cases more with
  | nil => exact second _ (mem_unclosedAmong.mpr ⟨[], c, r, inner, cut.symm, below, by simp⟩)
  | cons d r' =>
      obtain ⟨rfl, same⟩ := List.cons_eq_cons.mp cut
      obtain rfl : r = r' ++ ds := same
      have explained := first _ (mem_unclosedAmong.mpr ⟨l, c, r', inner, rfl, below, rfl⟩)
      rw [foundBefore_below] at explained ⊢
      dsimp only at explained ⊢
      rw [leavesAll_append, plainTokens_append, List.append_assoc]
      exact explained.right

theorem unclosedAmong_concat (none : ∀ c ∈ cs, c.unclosed = []) :
    unclosedAmong kind left (cs ++ [t]) =
      t.unclosed.map (Site.below ⟨kind, left ++ cs, t, []⟩) := by
  induction cs generalizing left with
  | nil => simp [unclosedAmong]
  | cons c cs ih =>
      rw [List.cons_append, unclosedAmong, none c List.mem_cons_self,
        ih fun d mem => none d (List.mem_cons_of_mem c mem)]
      simp

end Tree

/-! ## Reports -/

namespace Parser

/-- The tokens ahead, comments aside. -/
def rest (p : Parser) : List Token := p.ahead.toList.map Item.token

/-- The errors about constructs that are not closed. -/
def gaps (p : Parser) : List ParseError := p.errors.toList.filter fun e => e.kind == .missingCloser

/-- Between two parsers just the errors about the constructs of the list are recorded, and each of
these constructs has been given up for a reason. -/
structure Reports (p : Parser) (sites : List Site) (q : Parser) : Prop where
  gaps : q.gaps = p.gaps ++ sites.map (Site.errorBefore q.rest)
  reasons : ∀ site ∈ sites, site.Explained p.openClosers (site.foundBefore q.rest)

variable {p q r : Parser}

theorem reports_refl (p : Parser) : p.Reports [] p := ⟨by simp, by simp⟩

theorem gaps_unclosed (p : Parser) (span : Span) (kind : NodeKind) (closer : Kind) :
    (p.complainAt span (.unclosed kind closer)).gaps =
      p.gaps ++ [(Complaint.unclosed kind closer).toError span p.kind] := by
  simp [gaps, complainAt, Complaint.toError, Complaint.sort]

theorem reports_of_errors (same : q.errors = p.errors) : p.Reports [] q :=
  ⟨by simp [gaps, same], by simp⟩

/-- A complaint of another sort changes nothing. -/
theorem Reports.complain {sites : List Site} {c : Complaint} (h : p.Reports sites q)
    (other : c.sort ≠ .missingCloser) : p.Reports sites (q.complain c) := by
  have same : (q.complain c).gaps = q.gaps := by
    simp [Parser.gaps, Parser.complain, complainAt, Complaint.toError, other]
  exact ⟨same.trans h.gaps, h.reasons⟩

theorem Reports.complainTooDeep {sites : List Site} (h : p.Reports sites q) (limit : Nat) :
    p.Reports sites (Level.complainTooDeep limit q) := by
  rcases Level.complainTooDeep_cases limit q with e | e <;> rw [e]
  · exact h
  · exact h.complain ParseErrorKind.noConfusion

/-- More children come behind the ones so far. -/
theorem Reports.append {kind : NodeKind} {cs ds : List Tree}
    (h : p.Reports (unclosedAmong kind [] cs) q)
    (taken : plainTokens (leavesAll ds) ++ r.rest = q.rest)
    (new : r.gaps = q.gaps ++ (unclosedAmong kind cs ds).map (Site.errorBefore r.rest))
    (reasons : ∀ site ∈ unclosedAmong kind cs ds,
      site.Explained p.openClosers (site.foundBefore r.rest)) :
    p.Reports (unclosedAmong kind [] (cs ++ ds)) r where
  gaps := by rw [new, h.gaps, map_errorBefore_append, taken, List.append_assoc, List.nil_append]
  reasons := explained_append (taken.symm ▸ h.reasons) reasons

end Parser

namespace Frame

/-- The constructs below the children so far that lack their closers. -/
def sites (f : Frame) : List Site := unclosedAmong f.kind [] f.children.toList

variable {p q : Parser} {f g : Frame} {t : Tree} {role : Option Role}

theorem reports_attach (h : p.Reports g.sites g.parser) (tidy : q.Tidy)
    (read : g.parser.Reports t.unclosed q)
    (taken : plainTokens t.leaves ++ q.rest = g.parser.rest)
    (explained : ∀ site ∈ t.unclosed, ∀ left,
      (site.below ⟨g.kind, left, t.withRole role, []⟩).Explained p.openClosers
        (site.foundBefore q.rest)) :
    p.Reports ({ g with parser := q }.attach role t).sites
      ({ g with parser := q }.attach role t).parser := by
  have place : unclosedAmong g.kind g.children.toList (q.pending ++ [t.withRole role]) =
      t.unclosed.map (Site.below
        ⟨g.kind, g.children.toList ++ q.pending, t.withRole role, []⟩) := by
    rw [unclosedAmong_concat fun c mem => (tidy.pending c mem).unclosed, unclosed_withRole]
  unfold sites
  rw [children_attach, List.append_assoc]
  refine h.append (q := g.parser) ?_ ?_ ?_
  · show plainTokens (leavesAll (q.pending ++ [t.withRole role])) ++ q.rest = _
    rw [leavesAll_append, plainTokens_append, plainTokens_leavesAll tidy.pending]
    simpa using taken
  · rw [place, List.map_map]
    refine read.gaps.trans (congrArg _ (List.map_congr_left fun site _ => ?_))
    rw [Function.comp, Site.errorBefore_below]
    rfl
  · intro site mem
    rw [place] at mem
    obtain ⟨inner, below, rfl⟩ := List.mem_map.mp mem
    rw [Site.foundBefore_below]
    exact explained inner below _

theorem reports_bump (h : p.Reports f.sites f.parser) (tidy : f.parser.Tidy) :
    p.Reports (f.bump role).sites (f.bump role).parser := by
  cases head : f.parser.ahead.head? with
  | none =>
      rw [bump_of_none head]
      unfold sites
      rw [children_flush]
      have none : unclosedAmong f.kind f.children.toList f.parser.pending = [] :=
        unclosedAmong_eq_nil fun c mem => (tidy.pending c mem).unclosed
      refine h.append (r := f.flush.parser) ?_ ?_ ?_
      · rw [plainTokens_leavesAll tidy.pending]
        rfl
      · rw [none, List.map_nil, List.append_nil]
        rfl
      · simp [none]
  | some item =>
      have plain := (tidy.of_head head).plain
      have comments := (tidy.of_head head).comments
      have free : ∀ c ∈ f.parser.pending ++ item.comments, c.Comment := fun c mem =>
        (List.mem_append.mp mem).elim (tidy.pending c) (comments c)
      have none : unclosedAmong f.kind f.children.toList
          ((f.parser.pending ++ item.comments) ++ [.token role item.token]) = [] := by
        rw [unclosedAmong_concat fun c mem => (free c mem).unclosed]
        rfl
      obtain ⟨items, ahead⟩ := List.head?_eq_some_iff.mp head
      have split : (f.bump role).children.toList = f.children.toList ++
          ((f.parser.pending ++ item.comments) ++ [.token role item.token]) := by
        rw [children_bump head]
        simp
      unfold sites
      rw [kind_bump, split]
      refine h.append (r := (f.bump role).parser) ?_ ?_ ?_
      · rw [leavesAll_append, plainTokens_append, plainTokens_leavesAll free]
        simp [Parser.rest, ahead_bump, ahead, Tree.leaves, plainTokens, plain]
      · rw [none, List.map_nil, List.append_nil, Parser.gaps, errors_bump]
        rfl
      · rw [none]
        exact fun _ mem => by cases mem

theorem reports_bumps (h : p.Reports f.sites f.parser) (tidy : f.parser.Tidy) (n : Nat) :
    p.Reports (f.bumps n).sites (f.bumps n).parser := by
  induction n generalizing f with
  | zero => exact h
  | succ n ih => exact ih (reports_bump h tidy) (tidy_bump tidy _)

theorem reports_start (p : Parser) (kind : NodeKind) :
    p.Reports (p.start kind).sites (p.start kind).parser := p.reports_refl

/-- A finished node is a construct of the list only if it should have been closed. -/
theorem reports_finish (h : p.Reports f.sites f.parser) (closes : f.kind.closer = none) :
    p.Reports f.finish.1.unclosed f.finish.2 := by
  have same : f.finish.1.unclosed = f.sites ++ (gap? f.kind f.children.toList).toList := rfl
  rw [same, gap?_of_closer closes, Option.toList_none, List.append_nil]
  exact h

end Frame

/-! ## Closers -/

namespace Tree

variable {cs ds : List Tree} {closer : Kind} {t : Tree} {role : Option Role}

theorem leadingTokenOf?_append :
    leadingTokenOf? (cs ++ ds) = (leadingTokenOf? cs <|> leadingTokenOf? ds) := by
  induction cs with
  | nil => simp [leadingTokenOf?]
  | cons c cs ih => simp [leadingTokenOf?, ih, Option.orElse_eq_or, Option.or_assoc]

theorem leadingTokenOf?_of_comments (comments : ∀ c ∈ cs, c.Comment) :
    leadingTokenOf? cs = none := by
  induction cs with
  | nil => rfl
  | cons c cs ih =>
      rw [leadingTokenOf?, View.leadingToken?_of_comment (comments c List.mem_cons_self).isComment,
        ih fun d mem => comments d (List.mem_cons_of_mem c mem)]
      rfl

theorem trailingBodyOf?_append :
    trailingBodyOf? (cs ++ ds) = (trailingBodyOf? ds <|> trailingBodyOf? cs) := by
  induction cs with
  | nil => simp [trailingBodyOf?]
  | cons c cs ih => simp [trailingBodyOf?, ih, Option.orElse_eq_or, Option.or_assoc]

theorem trailingBodyOf?_of_comments (comments : ∀ c ∈ cs, c.Comment) :
    trailingBodyOf? cs = none := by
  induction cs with
  | nil => rfl
  | cons c cs ih =>
      rw [trailingBodyOf?, ih fun d mem => comments d (List.mem_cons_of_mem c mem),
        View.trailingBody?_of_comment (comments c List.mem_cons_self).isComment]
      rfl

theorem isGap_withRole (other : role ≠ some .closing) : (t.withRole role).isGap closer = false := by
  cases t with
  | token | node => rfl
  | missing =>
      unfold withRole isGap
      split
      · next same =>
        cases same
        exact absurd rfl other
      · rfl

theorem Comment.isGap (comment : t.Comment) : t.isGap closer = false := by
  cases comment <;> rfl

end Tree

namespace Frame

variable {p : Parser} {f : Frame} {kind : NodeKind} {closer : Kind} {x : Token}

/-- A construct that is not closed: the complaint, and behind it the placeholder. -/
theorem close_of_ne (closes : f.kind.closer = some closer) (other : f.current ≠ closer) :
    f.close = { f.insertMissing (some .closing) closer with
      parser := (f.insertMissing (some .closing) closer).parser.complainAt
        (if f.current = .eof then blamed f.opener f.children.toList closer else f.opener)
        (.unclosed f.kind closer) } := by
  unfold close
  rw [closes]
  exact if_neg other

theorem reports_insertMissing (h : p.Reports f.sites f.parser) (tidy : f.parser.Tidy)
    (role : Option Role) (wanted : Kind) :
    p.Reports (f.insertMissing role wanted).sites (f.insertMissing role wanted).parser :=
  reports_attach (g := f) (q := f.parser) h tidy f.parser.reports_refl rfl
    fun _ mem => by cases mem

/-- The construct itself is reported behind those below it. -/
theorem reports_close (h : p.Reports f.sites f.parser) (tidy : f.parser.Tidy)
    (closes : f.kind.closer = some closer) (other : f.current ≠ closer)
    (leading : leadingTokenOf? f.children.toList = some x) (begins : f.opener = x.span)
    (explained : ∀ cs, f.children.toList <+: cs →
      Site.Explained p.openClosers f.current ⟨[], f.kind, closer, cs⟩) :
    p.Reports f.close.finish.1.unclosed f.close.finish.2 := by
  let g := f.insertMissing (some .closing) closer
  let own : Site := ⟨[], f.kind, closer, g.children.toList⟩
  have reported : p.Reports g.sites g.parser := reports_insertMissing h tidy _ _
  have children : g.children.toList = f.children.toList ++
      (f.parser.pending ++ [.missing (some .closing) closer f.parser.lastEnd]) := by
    show (f.attach (some .closing) (f.parser.missing closer)).children.toList = _
    rw [children_attach, List.append_assoc]
    rfl
  have gap : g.children.toList.any (isGap closer) = true :=
    List.any_eq_true.mpr ⟨.missing (some .closing) closer f.parser.lastEnd,
      by rw [children]; simp, beq_self_eq_true closer⟩
  have place : f.close.finish.1.unclosed = g.sites ++ [own] := by
    rw [close_of_ne closes other]
    show g.sites ++ (gap? f.kind g.children.toList).toList = _
    have single : gap? f.kind g.children.toList = some own := gap?_eq_some.mpr ⟨rfl, closes, gap⟩
    rw [single, Option.toList_some]
  have found : own.foundBefore g.parser.rest = f.current := by
    show ((plainTokens [] ++ f.parser.ahead.toList.map Item.token).head?.map
      Token.kind).getD .eof = _
    rw [Frame.current, Parser.kind, Counted.head?]
    cases f.parser.ahead.toList <;> rfl
  have opener : own.opener = f.opener := by
    show ((leadingTokenOf? g.children.toList).map Token.span).getD default = _
    rw [children, leadingTokenOf?_append, leading, begins]
    rfl
  have body : trailingBodyOf? g.children.toList = trailingBodyOf? f.children.toList := by
    rw [children, trailingBodyOf?_append, trailingBodyOf?_append,
      trailingBodyOf?_of_comments tidy.pending]
    rfl
  have blame :
      blamed own.opener own.children closer = blamed f.opener f.children.toList closer := by
    rw [blamed, blamed, opener, show trailingBodyOf? own.children = _ from body]
  have error : own.errorBefore g.parser.rest = (Complaint.unclosed f.kind closer).toError
      (if f.current = .eof then blamed f.opener f.children.toList closer else f.opener)
      f.current := by
    unfold Site.errorBefore
    rw [found, ← blame, ← opener]
  rw [place, close_of_ne closes other]
  constructor
  · show (g.parser.complainAt _ (.unclosed f.kind closer)).gaps = _
    rw [Parser.gaps_unclosed, reported.gaps, List.map_append, List.map_singleton,
      List.append_assoc]
    exact congrArg _ (congrArg _ (congrArg (List.cons · []) error.symm))
  · intro site mem
    rcases List.mem_append.mp mem with mem | mem
    · exact reported.reasons site mem
    · obtain rfl := List.mem_singleton.mp mem
      show own.Explained p.openClosers (own.foundBefore g.parser.rest)
      rw [found]
      exact explained _ (children ▸ List.prefix_append _ _)

/-- The opening keyword is the first token of a construct. -/
theorem leadingTokenOf?_opened (tidy : p.Tidy) (here : p.kind ≠ .eof) (kind : NodeKind) :
    ∃ x, leadingTokenOf? (p.start kind).bump.children.toList = some x ∧ p.span = x.span := by
  obtain ⟨item, head, -⟩ := Parser.head_of_kind (p := p) rfl here
  have free : ∀ c ∈ p.pending ++ item.comments, c.Comment := fun c mem =>
    (List.mem_append.mp mem).elim (tidy.pending c) ((tidy.of_head head).comments c)
  refine ⟨item.token, ?_, by rw [Parser.span, head]⟩
  rw [children_bump (f := p.start kind) head, leadingTokenOf?_append]
  rw [show (p.start kind).children.toList ++ (p.start kind).parser.pending ++ item.comments =
    p.pending ++ item.comments from rfl, leadingTokenOf?_of_comments free]
  simp [leadingTokenOf?, leadingToken?, (tidy.of_head head).plain]

end Frame

/-- Only the closer itself is a child in its role. -/
theorem Gains.gapless {closer : Kind} : ∀ {kind : NodeKind} {f g : Frame}, Gains kind f g →
    kind.closer = some closer → f.parser.Tidy →
    (∀ c ∈ f.children.toList, c.isGap closer = false) →
    ∀ c ∈ g.children.toList, c.isGap closer = false
  | _, _, _, .refl _, _, _, h => h
  | _, _, _, .bump gained _ _ _, closes, tidy, h =>
      Frame.forall_children_bump (gained.grows.tidy tidy) (fun _ comment => comment.isGap)
        (gained.gapless closes tidy h) fun _ _ => rfl
  | _, _, _, .attach (g := g) (q := q) gained read _ outside, closes, tidy, h =>
      Frame.forall_children_attach (f := { g with parser := q })
        (read.reads.tidy (gained.grows.tidy tidy)) (fun _ comment => comment.isGap)
        (gained.gapless closes tidy h) (isGap_withRole fun closing => by
          rw [outside.2.2 closing] at closes
          cases closes)
  | _, _, _, .notice gained, closes, tidy, h => gained.gapless closes tidy h

theorem Fills.gapless {closer : Kind} : ∀ {f g : Frame}, Fills f g → f.parser.Tidy →
    (∀ c ∈ f.children.toList, c.isGap closer = false) →
    ∀ c ∈ g.children.toList, c.isGap closer = false
  | _, _, .refl _, _, h => h
  | _, _, .body (g := g) (q := q) filled read _, tidy, h
  | _, _, .clause (g := g) (q := q) filled read _ _, tidy, h =>
      Frame.forall_children_attach (f := { g with parser := q })
        (read.reads.tidy (filled.grows.tidy tidy)) (fun _ comment => comment.isGap)
        (filled.gapless tidy h) (isGap_withRole (by decide))
  | _, _, .nested filled inside, tidy, h => by
      have before := filled.grows.tidy tidy
      exact inside.gapless ⟨before.pending, before.ahead, before.trailing⟩ (filled.gapless tidy h)
  | _, _, .tooDeep _ filled _ _, tidy, h => filled.gapless tidy h

/-! ## Courses report what they leave open -/

theorem NodeKind.closer_of_isSimple {k : NodeKind} (h : k.isSimple = true) : k.closer = none := by
  revert h
  cases k <;> decide

theorem NodeKind.closer_of_isClause {k : NodeKind} (h : k.isClause = true) :
    k.closer = none ∧ k.awaits = [] := by
  revert h
  cases k <;> decide

namespace Parser.Encloses

variable {p : Parser} {kind : NodeKind} {closer : Kind} {g h f : Frame}

/-- A construct that is closed has no place in the list itself. -/
theorem reports_closed (frames : p.Encloses kind g h) (closes : kind.closer = some closer)
    (filled : p.Reports h.sites h.parser)
    (gapless : ∀ c ∈ h.children.toList, c.isGap closer = false) (here : h.current = closer)
    (behind : Gains kind (g.left h) f)
    (onward : p.Reports (g.left h).sites (g.left h).parser → p.Reports f.sites f.parser) :
    p.Reports f.finish.1.unclosed f.finish.2 := by
  let l : Frame := { h with parser := h.parser.leaveBlock g.parser.openClosers.length }
  have closesLeft : l.kind.closer = some closer := frames.kind_after ▸ closes
  have leaving : l.parser.Tidy :=
    ⟨frames.after.pending, frames.after.ahead, frames.after.trailing⟩
  have taken : g.left h = l.bump (some .closing) :=
    ((Frame.close_cases closesLeft).resolve_right fun other => other.1 here).2
  have whole : ∀ c ∈ f.children.toList, c.isGap closer = false :=
    behind.gapless closes frames.left (taken ▸ Frame.forall_children_bump leaving
      (fun _ comment => comment.isGap) gapless fun _ _ => rfl)
  have closed : gap? f.kind f.children.toList = none := by
    rw [Option.eq_none_iff_forall_ne_some]
    intro site found
    obtain ⟨-, same, gap⟩ := gap?_eq_some.mp found
    rw [behind.grows.kind, Frame.left, Frame.kind_close, closesLeft] at same
    obtain ⟨c, mem, gap⟩ := List.any_eq_true.mp gap
    rw [← Option.some.inj same, whole c mem] at gap
    cases gap
  have same : f.finish.1.unclosed = f.sites ++ (gap? f.kind f.children.toList).toList := rfl
  rw [same, closed, Option.toList_none, List.append_nil]
  exact onward (taken ▸ Frame.reports_bump (f := l) ⟨filled.gaps, filled.reasons⟩ leaving)

/-- A construct that is not closed is the last one in the list, for the reason for which it stops
where it does. -/
theorem reports_open (frames : p.Encloses kind g h) (closes : kind.closer = some closer)
    (filled : p.Reports h.sites h.parser) {x : Token}
    (leading : leadingTokenOf? h.children.toList = some x) (begins : h.opener = x.span)
    (stops : h.Stops kind g.parser.openClosers) (other : h.current ≠ closer) :
    p.Reports (g.left h).finish.1.unclosed (g.left h).finish.2 := by
  let l : Frame := { h with parser := h.parser.leaveBlock g.parser.openClosers.length }
  refine Frame.reports_close (f := l) (x := x) ⟨filled.gaps, filled.reasons⟩
    ⟨frames.after.pending, frames.after.ahead, frames.after.trailing⟩
    (frames.kind_after ▸ closes) other leading begins fun cs begin => ?_
  rcases stops with own | eof | outer | ⟨rfl, branch, c, mem, clause⟩
  · exact absurd (Option.some.inj (own.trans closes)) other
  · exact .ending eof
  · exact .outer (frames.outer ▸ outer)
  · exact .late branch (.inl ⟨frames.kind_after, c, begin.subset mem, clause⟩)

end Parser.Encloses

mutual

/-- While a tree is read, just what stays open in it is reported. -/
theorem Forms.reports : ∀ {s : Scope} {p q : Parser} {t : Tree}, Forms s p t q → p.Tidy →
    p.Reports t.unclosed q
  | _, p, _, _, .leaf here _, _ => by
      simp only [Parser.takeLeaf, here]
      exact Parser.reports_of_errors rfl
  | _, p, _, _, .string _ gained _, tidy =>
      Frame.reports_finish (gained.reports tidy rfl (Frame.reports_start p _))
        (gained.grows.kind ▸ rfl)
  | _, p, _, _, .node _ simple _ gained, tidy =>
      Frame.reports_finish (gained.reports tidy rfl (Frame.reports_start p _))
        (gained.grows.kind ▸ NodeKind.closer_of_isSimple simple)
  | _, p, _, _, @Forms.around _ _ _ q t role _ kind simple _ first _ _ gained, tidy => by
      have after := first.reads.tidy tidy
      have read := first.reports tidy
      have begun : p.Reports ((q.start kind).attach role t).sites
          ((q.start kind).attach role t).parser :=
        Frame.reports_attach (g := p.start kind) (Frame.reports_start p kind) after read
          (first.reads.plainTokens_conserved tidy) fun site mem _ => (read.reasons site mem).below _
      exact Frame.reports_finish
        (gained.reports (Frame.tidy_attach after _ _) first.reads.later.openClosers begun)
        (gained.grows.kind ▸ NodeKind.closer_of_isSimple simple)
  | _, p, _, _, @Forms.block _ _ g h _ kind closer closes opens _ heading inside stops behind
      nothing _, tidy => by
      have frames := tidy.encloses closes heading inside
      have begun := Frame.tidy_bump (f := p.start kind) tidy none
      have entered : (g.entered kind.awaits).parser.Tidy :=
        ⟨frames.before.pending, frames.before.ahead, frames.before.trailing⟩
      have headed : p.Reports g.sites g.parser := heading.reports begun
        (Parser.Later.bump (f := p.start kind) (.refl _)).openClosers
        (Frame.reports_bump (Frame.reports_start p kind) tidy)
      have filled : p.Reports h.sites h.parser := inside.reports entered
        (by
          rw [show (g.entered kind.awaits).kind = kind from frames.kind_before, ← frames.outer]
          rfl)
        ⟨headed.gaps, headed.reasons⟩
      by_cases here : h.current = closer
      · have first : ∀ c ∈ (p.start kind).bump.children.toList, c.isGap closer = false :=
          Frame.forall_children_bump tidy (fun _ comment => comment.isGap)
            (fun c mem => by cases mem) fun _ _ => rfl
        exact frames.reports_closed closes filled
          (inside.gapless entered (heading.gapless closes begun first)) here behind
          (behind.reports frames.left frames.around)
      · obtain ⟨x, leading, span⟩ :=
          Frame.leadingTokenOf?_opened tidy (NodeKind.ne_eof_of_opening? opens) kind
        obtain ⟨more, children⟩ := heading.grows.children.trans inside.grows.children
        rw [nothing here]
        refine frames.reports_open closes filled (x := x) ?_ ?_ stops here
        · rw [← children, leadingTokenOf?_append, leading]
          rfl
        · rw [inside.grows.opener, ← span]
          exact heading.grows.opener.trans (Frame.opener_bump _ _)
  | _, p, _, _, .clause (g := g) kind clause heading inside, tidy => by
      obtain ⟨closes, awaits⟩ := NodeKind.closer_of_isClause clause
      have headed := heading.reports tidy rfl (Frame.reports_start p kind)
      have outer : g.parser.openClosers = p.openClosers ++ g.kind.awaits := by
        rw [show g.kind = kind from heading.grows.kind, awaits, List.append_nil]
        exact heading.grows.later.openClosers
      have filled := inside.reports (heading.grows.tidy tidy) outer headed
      exact Frame.reports_finish filled
        (by rw [inside.grows.kind, show g.kind = kind from heading.grows.kind, closes])
  | _, p, _, _, .absent other, _ => p.reports_refl.complain other
  | _, p, _, _, .mark _ other, tidy | _, p, _, _, .aside _ _ _ other, tidy =>
      Frame.reports_finish (Frame.reports_bump (f := (p.complain _).start .error)
        (p.reports_refl.complain other) (tidy.complainAt _ _))
        (congrArg NodeKind.closer (Frame.kind_bump _ _))
  | _, p, _, _, .stray misplaced other within gained, tidy => by
      have begun : p.Reports ((p.complain _).start .error).bump.sites
          ((p.complain _).start .error).bump.parser :=
        Frame.reports_bump (p.reports_refl.complain other) (tidy.complainAt _ _)
      refine Frame.reports_finish (gained.reports (Frame.tidy_bump (tidy.complainAt _ _) _)
        (Parser.Later.bump (f := (p.complain _).start .error) (.refl _)).openClosers begun) ?_
      rw [gained.grows.kind, Frame.kind_bump]
      rfl
  | _, p, _, _, .tooDeep limit (n := n) _ _, tidy => by
      refine Frame.reports_finish (Frame.reports_bumps
        (f := (Level.complainTooDeep limit p).start .error)
        (p.reports_refl.complainTooDeep limit) (tidy.complainTooDeep limit) (n + 1)) ?_
      rw [Frame.kind_bumps]
      rfl
  | _, p, _, _, .absentTooDeep limit, _ => p.reports_refl.complainTooDeep limit
  | _, _, _, _, .noticing read, tidy => by
      have reported := read.reports ⟨tidy.pending, tidy.ahead, tidy.trailing⟩
      exact ⟨reported.gaps, reported.reasons⟩
  | _, _, _, _, .nested read, tidy => by
      have reported := read.reports ⟨tidy.pending, tidy.ahead, tidy.trailing⟩
      exact ⟨reported.gaps, reported.reasons⟩

theorem Gains.reports : ∀ {kind : NodeKind} {f g : Frame}, Gains kind f g → ∀ {p : Parser},
    f.parser.Tidy → f.parser.openClosers = p.openClosers → p.Reports f.sites f.parser →
    p.Reports g.sites g.parser
  | _, _, _, .refl _, _, _, _, h => h
  | _, _, _, .bump gained _ _ _, _, tidy, outer, h =>
      Frame.reports_bump (gained.reports tidy outer h) (gained.grows.tidy tidy)
  | _, _, _, .attach (g := g) gained read _ _, _, tidy, outer, h => by
      have before := gained.grows.tidy tidy
      have reported := read.reports before
      have same := gained.grows.later.openClosers
      exact Frame.reports_attach (gained.reports tidy outer h) (read.reads.tidy before) reported
        (read.reads.plainTokens_conserved before)
        fun site mem _ => (outer ▸ same ▸ reported.reasons site mem).below _
  | _, _, _, .notice gained, _, tidy, outer, h => by
      have reported := gained.reports tidy outer h
      exact ⟨reported.gaps, reported.reasons⟩

theorem Fills.reports : ∀ {f g : Frame}, Fills f g → ∀ {p : Parser}, f.parser.Tidy →
    f.parser.openClosers = p.openClosers ++ f.kind.awaits → p.Reports f.sites f.parser →
    p.Reports g.sites g.parser
  | _, _, .refl _, _, _, _, h => h
  | _, _, .body (g := g) filled read _, _, tidy, outer, h
  | _, _, .clause (g := g) filled read _ _, _, tidy, outer, h => by
      have before := filled.grows.tidy tidy
      have reported := read.reports before
      rw [← filled.grows.later.openClosers, ← filled.grows.kind] at outer
      refine Frame.reports_attach (filled.reports tidy ?_ h) (read.reads.tidy before) reported
        (read.reads.plainTokens_conserved before) fun site mem left => ?_
      · rw [← filled.grows.later.openClosers, ← filled.grows.kind, outer]
      · exact (outer ▸ reported.reasons site mem).enclosed (by simp)
  | _, _, .nested filled inside, _, tidy, outer, h => by
      have before := filled.grows.tidy tidy
      have reported := filled.reports tidy outer h
      rw [← filled.grows.later.openClosers, ← filled.grows.kind] at outer
      have reported := inside.reports ⟨before.pending, before.ahead, before.trailing⟩ outer
        ⟨reported.gaps, reported.reasons⟩
      exact ⟨reported.gaps, reported.reasons⟩
  | _, _, .tooDeep (g := g) limit filled _ _, _, tidy, outer, h => by
      have reported := (filled.reports tidy outer h).complainTooDeep limit
      exact ⟨reported.gaps, reported.reasons⟩

end

/-! ## Programs -/

namespace Tree.Site

/-- The kind of the first token behind the construct, comments aside. -/
def found (site : Site) : Kind := site.foundBefore []

/-- The error about the construct. -/
def error (site : Site) : ParseError := site.errorBefore []

end Tree.Site

namespace Program

theorem parseWithin_reports (limit : Nat) (tokens : List Token) :
    (parseWithin limit tokens).2.filter (fun e => e.kind == .missingCloser) =
        (parseWithin limit tokens).1.unclosed.map Site.error ∧
      ∀ site ∈ (parseWithin limit tokens).1.unclosed, site.Explained [] site.found := by
  let p := Parser.ofTokens tokens
  let f := (p.start .program).loop (step (.stack limit limit))
  have gained : Gains .program (p.start .program) f := loop_gains limit tokens
  have before := Parser.tidy_ofTokens tokens
  have after : f.parser.Tidy := gained.grows.tidy before
  have reported : p.Reports f.sites f.parser :=
    gained.reports before rfl (Frame.reports_start p .program)
  have kind : f.kind = .program := gained.grows.kind
  have behind : f.parser.rest = [] := by
    rw [Parser.rest, after.ahead_eq_nil (loop_current (Level.stack_progresses limit limit) _)]
    rfl
  have comments : ∀ c ∈ f.parser.pending ++ f.parser.trailing, c.Comment := fun c mem =>
    (List.mem_append.mp mem).elim (after.pending c) (after.trailing c)
  have none : unclosedAmong .program f.children.toList (f.parser.pending ++ f.parser.trailing) =
      [] := unclosedAmong_eq_nil fun c mem => (comments c mem).unclosed
  rw [Frame.sites, kind] at reported
  have taken : plainTokens (leavesAll (f.parser.pending ++ f.parser.trailing)) ++ f.parser.rest =
      f.parser.rest := by
    rw [plainTokens_leavesAll comments]
    rfl
  have whole := reported.append taken (by rw [none]; simp)
    (by rw [none]; exact fun _ mem => by cases mem)
  have children : (f.flush.children ++ f.parser.trailing).toList =
      f.children.toList ++ (f.parser.pending ++ f.parser.trailing) := by
    rw [Frame.flush]
    simp
  have same : (finish f).unclosed = unclosedAmong .program []
      (f.children.toList ++ (f.parser.pending ++ f.parser.trailing)) := by
    show unclosedAmong .program [] (f.flush.children ++ f.parser.trailing).toList ++ [] = _
    rw [children, List.append_nil]
  show f.parser.gaps = (finish f).unclosed.map Site.error ∧
    ∀ site ∈ (finish f).unclosed, site.Explained [] site.found
  obtain ⟨gaps, reasons⟩ := whole
  rw [behind] at gaps reasons
  rw [same]
  exact ⟨gaps, reasons⟩

/-- **A construct is given up only for a reason.** The errors about missing closers are those about
the constructs that lack them, one for each, in the order in which they end. What stands where the
closer should be is the end of input or ends a construct around, except that a conditional goes on
to end at further branches in its last one, which nobody takes then. -/
theorem parse_explained (tokens : List Token) :
    (parse tokens).2.filter (fun e => e.kind == .missingCloser) =
        (parse tokens).1.unclosed.map Site.error ∧
      ∀ site ∈ (parse tokens).1.unclosed,
        site.error.found = .eof ∨ (∃ s ∈ site.way, s.Awaits site.error.found) ∨
          (site.error.found = .kwElseIf ∨ site.error.found = .kwElse) ∧ site.PastElse := by
  obtain ⟨errors, reasons⟩ := parseWithin_reports maxDepth tokens
  refine ⟨errors, fun site mem => ?_⟩
  cases reasons site mem with
  | ending none => exact .inl none
  | outer mem => cases mem
  | around mem awaits => exact .inr (.inl ⟨_, mem, awaits⟩)
  | late branch past => exact .inr (.inr ⟨branch, past⟩)

/-- In the text `if a then else else end` the second `else` is taken by nobody. -/
example :
    let tokens : List Token := [⟨.kwIf, "if", default⟩, ⟨.identifier, "a", default⟩,
      ⟨.kwThen, "then", default⟩, ⟨.kwElse, "else", default⟩, ⟨.kwElse, "else", default⟩,
      ⟨.kwEnd, "end", default⟩]
    (parse tokens).1.unclosed.map (fun site => (site.kind, site.found, site.way.map Step.kind)) =
      [(.ifStatement, .kwElse, [.program])] := by
  decide +kernel

end Program

end JassSyntax
