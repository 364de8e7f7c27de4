import JassSyntax.Proofs.Tree.Paths

/-!
# Constructs without their closers

A construct lacks its closer if a placeholder stands where the closer should be. All such constructs
of a tree, each with its place, in the order in which they end.
-/

namespace JassSyntax

namespace Tree

/-! ## Constructs and their places -/

/-- A placeholder for the closer of a construct. -/
def isGap (closer : Kind) : Tree → Bool
  | missing (some .closing) kind _ => kind == closer
  | _ => false

/-- A construct at one place of a tree. -/
structure Site where
  way : List Step
  kind : NodeKind
  closer : Kind
  children : List Tree

/-- The same construct, seen from one step further up. -/
def Site.below (s : Step) (site : Site) : Site := { site with way := s :: site.way }

/-- The construct of these children, if it lacks its closer. -/
def gap? (kind : NodeKind) (cs : List Tree) : Option Site :=
  match kind.closer with
  | some closer => if cs.any (isGap closer) then some ⟨[], kind, closer, cs⟩ else none
  | none => none

mutual

/-- The constructs in the tree that lack their closers, in the order in which they end. -/
def unclosed : Tree → List Site
  | node _ kind _ cs => unclosedAmong kind [] cs ++ (gap? kind cs).toList
  | _ => []

/-- Those below children of a node of the kind, the first of which come behind `left`. -/
def unclosedAmong (kind : NodeKind) (left : List Tree) : List Tree → List Site
  | [] => []
  | c :: right =>
    c.unclosed.map (Site.below ⟨kind, left, c, right⟩) ++ unclosedAmong kind (left ++ [c]) right

end

variable {kind : NodeKind} {closer : Kind} {t : Tree} {cs ds left : List Tree} {site : Site}
  {role : Option Role}

theorem gap?_eq_some : gap? kind cs = some site ↔
    site = ⟨[], kind, site.closer, cs⟩ ∧ kind.closer = some site.closer ∧
      cs.any (isGap site.closer) = true := by
  unfold gap?
  split
  · next closer closes =>
    rw [closes]
    constructor
    · intro h
      split at h
      · next gap =>
        cases h
        exact ⟨rfl, rfl, gap⟩
      · cases h
    · rintro ⟨same, closes, gap⟩
      rw [Option.some.inj closes, if_pos gap, ← same]
  · next closes => simp [closes]

/-- A node that is closed by nothing lacks nothing. -/
theorem gap?_of_closer (closes : kind.closer = none) : gap? kind cs = none := by
  unfold gap?
  rw [closes]

theorem mem_unclosedAmong : site ∈ unclosedAmong kind left cs ↔
    ∃ l c r inner, cs = l ++ c :: r ∧ inner ∈ c.unclosed ∧
      site = inner.below ⟨kind, left ++ l, c, r⟩ := by
  induction cs generalizing left with
  | nil => simp [unclosedAmong]
  | cons c cs ih =>
      rw [unclosedAmong, List.mem_append, List.mem_map, ih]
      constructor
      · rintro (⟨inner, mem, rfl⟩ | ⟨l, d, r, inner, rfl, mem, rfl⟩)
        · exact ⟨[], c, cs, inner, rfl, mem, by simp⟩
        · exact ⟨c :: l, d, r, inner, rfl, mem, by simp⟩
      · rintro ⟨l, d, r, inner, split, mem, rfl⟩
        cases l with
        | nil =>
            cases split
            exact .inl ⟨inner, mem, by simp⟩
        | cons e l =>
            cases split
            exact .inr ⟨l, d, r, inner, rfl, mem, by simp⟩

/-- The list has exactly the constructs at whose places a placeholder stands for the closer. -/
theorem mem_unclosed : site ∈ t.unclosed ↔
    ∃ u, Path t site.way u ∧ u.nodeKind? = some site.kind ∧ u.children = site.children ∧
      site.kind.closer = some site.closer ∧ site.children.any (isGap site.closer) = true := by
  induction t using children_induction generalizing site with
  | step t ih =>
      cases t with
      | token | missing =>
          refine ⟨fun mem => (by cases mem), ?_⟩
          rintro ⟨u, path, node, -⟩
          generalize site.way = way at path
          cases path
          cases node
      | node role kind span cs =>
          rw [unclosed, List.mem_append, mem_unclosedAmong, Option.mem_toList, gap?_eq_some]
          constructor
          · rintro (⟨l, c, r, inner, rfl, mem, rfl⟩ | ⟨same, closes, gap⟩)
            · obtain ⟨u, path, rest⟩ := (ih c (by simp [children])).mp mem
              exact ⟨u, .down path, rest⟩
            · rw [same]
              exact ⟨_, .here _, rfl, rfl, closes, gap⟩
          · obtain ⟨way, kind', closer, cs'⟩ := site
            rintro ⟨u, path, node, children, closes, gap⟩
            cases path with
            | here =>
                cases node
                cases children
                exact .inr ⟨rfl, closes, gap⟩
            | @down _ _ _ l r c _ way rest =>
                have inside : ⟨way, kind', closer, cs'⟩ ∈ c.unclosed :=
                  (ih c (by simp [Tree.children])).mpr ⟨u, rest, node, children, closes, gap⟩
                exact .inl ⟨l, c, r, _, rfl, inside, rfl⟩

@[simp] theorem unclosed_withRole (role : Option Role) (t : Tree) :
    (t.withRole role).unclosed = t.unclosed := by
  cases t <;> rfl

theorem Comment.unclosed (comment : t.Comment) : t.unclosed = [] := by
  refine List.eq_nil_iff_forall_not_mem.mpr fun site mem => ?_
  obtain ⟨u, path, node, -, closes, -⟩ := mem_unclosed.mp mem
  have below := comment.elements u (mem_elements_iff_path.mpr ⟨_, path⟩)
  cases below with
  | token => cases node
  | block =>
      rw [← Option.some.inj node] at closes
      cases closes

theorem unclosedAmong_eq_nil (none : ∀ c ∈ cs, c.unclosed = []) :
    unclosedAmong kind left cs = [] := by
  refine List.eq_nil_iff_forall_not_mem.mpr fun site mem => ?_
  obtain ⟨l, c, r, inner, rfl, mem, -⟩ := mem_unclosedAmong.mp mem
  rw [none c (by simp)] at mem
  cases mem

end Tree

end JassSyntax
