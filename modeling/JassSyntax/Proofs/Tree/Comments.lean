import JassSyntax.Grammar.Item

/-!
# Comments in a tree

The grammar passes over comments, and the tree keeps them among the children of its nodes. The parts
of a node are the children that the grammar speaks of.
-/

namespace JassSyntax.Tree

/-- A comment token, a lone part of a comment, or a block comment. -/
def isComment : Tree → Bool
  | token _ t => t.isTrivia
  | missing .. => false
  | node _ k _ _ => k == .blockComment

@[simp] theorem isComment_withRole (r : Option Role) (t : Tree) :
    (t.withRole r).isComment = t.isComment := by
  cases t <;> rfl

theorem isComment_blockComment (opening : Token) (rest : List Tree) :
    (blockComment opening rest).isComment = true := rfl

/-- A comment as it stands in a stream of items: a token, or a block comment made of tokens. -/
inductive Comment : Tree → Prop
  | token {role : Option Role} {t : Token} (trivia : t.isTrivia = true) : Comment (.token role t)
  | block {opening : Token} {rest : List Tree} (first : opening.isTrivia = true)
      (parts : ∀ t ∈ rest, ∃ role part, t = .token role part ∧ part.isTrivia = true) :
      Comment (blockComment opening rest)

theorem Comment.isComment {t : Tree} (h : t.Comment) : t.isComment = true := by
  cases h with
  | token trivia => exact trivia
  | block => exact isComment_blockComment _ _

/-- The trees that are no comments. -/
def significant (ts : List Tree) : List Tree := ts.filter fun t => !t.isComment

/-- The children of a node, comments aside. -/
def parts (t : Tree) : List Tree := significant t.children

@[simp] theorem significant_append (ts us : List Tree) :
    significant (ts ++ us) = significant ts ++ significant us :=
  List.filter_append ..

theorem significant_of_comments {ts : List Tree} (h : ∀ t ∈ ts, t.Comment) :
    significant ts = [] := by
  rw [significant, List.filter_eq_nil_iff]
  intro t ht
  simp [(h t ht).isComment]

theorem significant_singleton {t : Tree} (h : t.isComment = false) : significant [t] = [t] := by
  simp [significant, h]

@[simp] theorem parts_withRole (r : Option Role) (t : Tree) : (t.withRole r).parts = t.parts := by
  cases t <;> rfl

end JassSyntax.Tree
