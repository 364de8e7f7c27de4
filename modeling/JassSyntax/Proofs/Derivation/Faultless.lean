import JassSyntax.Proofs.Derivation.Statements

/-!
# Texts without errors

Without errors nothing has been repaired: the productions lose what only repairs use, and what is
left of them is the grammar that texts are written by.
-/

namespace JassSyntax

open Computability Production

namespace Production

/-- Nothing is repaired in a text without errors. -/
@[simp] theorem repaired_clean (L : Language Tree) : repaired .clean L = 0 := by
  ext word
  exact ⟨fun h => absurd rfl h.1, fun h => absurd h (Language.notMem_zero word)⟩

@[simp] theorem wanted_clean (kind : Kind) (role : Option Role) :
    wanted .clean kind role = token kind role := by
  simp [wanted, junk]

@[simp] theorem closing_clean (kind : Kind) :
    closing .clean kind = token kind (some .closing) := by
  simp [closing]

@[simp] theorem statement_clean : statement .clean = nodeOf (·.isStatement = true) := by
  simp [statement, junk]

end Production

example : production .clean .whileStatement =
    token .kwWhile * expression .clean Power.assignment (some .condition) * token .kwDo * body *
      token .kwEnd (some .closing) := by
  simp [production]

namespace Program

/-- **A parse without errors is a derivation.** Nothing is missing, nothing is put aside, and every
node has, comments aside, the children of a production of its kind. -/
theorem parse_derives (tokens : List Token) (faultless : (parse tokens).2 = []) :
    (parse tokens).1.Everywhere fun t => t.isMissing = false ∧ t.nodeKind? ≠ some .error ∧
      ∀ kind, t.nodeKind? = some kind → t.parts ∈ production .clean kind := by
  have lawful : (parse tokens).1.Lawful .clean := parseWithin_lawful maxDepth tokens faultless
  refine lawful.imp fun t built => ⟨built.present rfl, fun error => ?_, built.derived⟩
  have derived := built.derived .error error
  rw [production, repaired_clean] at derived
  exact Language.notMem_zero _ derived

/-- The text `if a then b = -c ^ 2 end`. -/
theorem parse_derives_conditional :
    let tokens : List Token := [⟨.kwIf, "if", default⟩, ⟨.identifier, "a", default⟩,
      ⟨.kwThen, "then", default⟩, ⟨.identifier, "b", default⟩, ⟨.equals, "=", default⟩,
      ⟨.minus, "-", default⟩, ⟨.identifier, "c", default⟩, ⟨.caret, "^", default⟩,
      ⟨.number, "2", default⟩, ⟨.kwEnd, "end", default⟩]
    (parse tokens).2 = [] ∧ (parse tokens).1.Everywhere fun t => t.isMissing = false ∧
      t.nodeKind? ≠ some .error ∧
        ∀ kind, t.nodeKind? = some kind → t.parts ∈ production .clean kind := by
  intro tokens
  have faultless : (parse tokens).2 = [] := by decide +kernel
  exact ⟨faultless, parse_derives tokens faultless⟩

end Program

end JassSyntax
