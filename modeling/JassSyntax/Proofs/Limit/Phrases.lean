import JassSyntax.Proofs.Derivation.Phrases
import JassSyntax.Proofs.Limit.Regions

/-!
# Phrases close what they open

In a word of the grammar every bracket and every block that is opened is closed, and outside of them
nothing closes or ends anything. The count is carried over to forms, in which phrases have not been
rewritten yet: a phrase counts as if it were nothing. Each rule on its own then leaves the count as
it is, and so does every derivation, whatever it nests.
-/

namespace JassSyntax.Phrase

/-- How many blocks have to be open around the phrase. Branches stand only inside of one. -/
def around : Phrase → Nat
  | branches => 1
  | _ => 0

/-- How many brackets and blocks are open behind the form, if `balance` are in front of it. -/
def walk : Nat → List Part → Option Nat
  | balance, [] => some balance
  | balance, .terminal k :: form => (Level.walk balance [k]).bind fun after => walk after form
  | balance, .nonterminal p :: form => if p.around ≤ balance then walk balance form else none

variable {p : Phrase} {form u v : List Part} {balance after : Nat}

theorem walk_append (balance : Nat) (u v : List Part) :
    walk balance (u ++ v) = (walk balance u).bind fun after => walk after v := by
  induction u generalizing balance with
  | nil => rfl
  | cons part u ih =>
      cases part with
      | terminal k =>
          rw [List.cons_append, walk, walk, Option.bind_assoc]
          congr 1
          funext after
          exact ih after
      | nonterminal p =>
          rw [List.cons_append, walk, walk]
          split
          · exact ih balance
          · rfl

/-- In a word there are no phrases, and the count is that of its kinds. -/
theorem walk_terminals (balance : Nat) (ks : List Kind) :
    walk balance (ks.map .terminal) = Level.walk balance ks := by
  induction ks generalizing balance with
  | nil => rfl
  | cons k ks ih =>
      rw [List.map_cons, walk, show k :: ks = [k] ++ ks from rfl, Level.walk_append]
      congr 1
      funext after
      exact ih after

/-- Inside more brackets the count goes the same way. -/
theorem walk_succ (h : walk balance form = some after) :
    walk (balance + 1) form = some (after + 1) := by
  induction form generalizing balance with
  | nil =>
      cases h
      rfl
  | cons part form ih =>
      cases part with
      | terminal k =>
          rw [walk, Option.bind_eq_some_iff] at h
          obtain ⟨between, here, rest⟩ := h
          rw [walk, Level.walk_succ here]
          exact ih rest
      | nonterminal p =>
          rw [walk] at h ⊢
          split at h
          · next le =>
            rw [if_pos (Nat.le_succ_of_le le)]
            exact ih h
          · cases h

/-- What a phrase is rewritten to leaves the count as the phrase does. -/
theorem walk_rule (rule : form ∈ p.rules) : walk p.around form = some p.around := by
  have each : ∀ form ∈ p.rules, walk p.around form = some p.around := by
    cases p <;> decide
  exact each form rule

/-- It does so inside of however many brackets. -/
theorem walk_rule_of_le (rule : form ∈ p.rules) (le : p.around ≤ balance) :
    walk balance form = some balance := by
  induction balance, le using Nat.le_induction with
  | base => exact walk_rule rule
  | succ balance _ ih => exact walk_succ ih

/-- Rewriting one phrase of a form keeps the count. -/
theorem walk_of_rewrites {r : ContextFreeRule Kind Phrase} (rule : r.output ∈ r.input.rules)
    (rewrites : r.Rewrites u v) (h : walk balance u = some after) :
    walk balance v = some after := by
  induction rewrites generalizing balance with
  | head form =>
      rw [walk] at h
      split at h
      · next le =>
        rw [walk_append, walk_rule_of_le rule le]
        exact h
      · cases h
  | cons part _ ih =>
      cases part with
      | terminal k =>
          rw [walk, Option.bind_eq_some_iff] at h ⊢
          obtain ⟨between, here, rest⟩ := h
          exact ⟨between, here, ih rest⟩
      | nonterminal p =>
          rw [walk] at h ⊢
          split at h
          · next le =>
            rw [if_pos le]
            exact ih h
          · cases h

/-- So does a whole derivation. -/
theorem walk_of_derives (derives : grammar.Derives u v) (h : walk balance u = some after) :
    walk balance v = some after := by
  induction derives with
  | refl => exact h
  | tail _ step ih =>
      obtain ⟨r, mem, rewrites⟩ := step
      exact walk_of_rewrites (mem_rules.mp mem) rewrites ih

/-- A list of statements closes what it opens. -/
theorem walk_of_mem_language {ks : List Kind} (word : ks ∈ grammar.language) :
    Level.walk 0 ks = some 0 := by
  have start : walk 0 [.nonterminal statements] = some 0 := rfl
  rw [← walk_terminals]
  exact walk_of_derives word start

end JassSyntax.Phrase
