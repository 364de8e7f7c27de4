/-!
# Loops that use something up

Reading a grammar repeats steps that consume tokens. `Loop.run` repeats a step for as long as it
asks for another round and has made its state smaller, so it ends whatever the step does. A step
that always consumes before it asks for another round never notices the second condition
(`Loop.run_eq`).
-/

namespace JassSyntax.Loop

variable {α : Type}

/-- Repeats `step` from `a` on. A step gives the new state and whether to go on. -/
def run (size : α → Nat) (step : α → α × Bool) (a : α) : α :=
  let before := size a
  let next := step a
  if size next.1 < before ∧ next.2 = true then run size step next.1 else next.1
  termination_by size a
  decreasing_by rename_i h; exact h.1

/-- A step that shrinks its state whenever it goes on decides alone when to stop. -/
theorem run_eq {size : α → Nat} {step : α → α × Bool} (a : α)
    (shrinks : (step a).2 = true → size (step a).1 < size a) :
    run size step a = if (step a).2 then run size step (step a).1 else (step a).1 := by
  rw [run]
  by_cases h : (step a).2 = true <;> simp_all

/-- What holds between the states around every step, and carries over, holds around the loop. -/
theorem run_related {size : α → Nat} {step : α → α × Bool} {R : α → α → Prop}
    (trans : ∀ {a b c}, R a b → R b c → R a c) (each : ∀ a, R a (step a).1) (a : α) :
    R a (run size step a) := by
  fun_induction run size step a with
  | case1 a before next h ih => exact trans (each a) ih
  | case2 a before next h => exact each a

/-- The rule for loops. `P` holds before each round, and `Q` after the last: after one that does not
go on, and after one that would but has used nothing up. -/
theorem run_rule {size : α → Nat} {step : α → α × Bool} {P Q : α → Prop}
    (goes : ∀ a, P a → (step a).2 = true → P (step a).1)
    (stops : ∀ a, P a → (step a).2 = false → Q (step a).1)
    (stalls : ∀ a, P a → (step a).2 = true → size a ≤ size (step a).1 → Q (step a).1)
    {a : α} (start : P a) : Q (run size step a) := by
  fun_induction run size step a with
  | case1 a before next h ih => exact ih (goes a start h.2)
  | case2 a before next h =>
    cases go : next.2 with
    | false => exact stops a start go
    | true => exact stalls a start go (Nat.le_of_not_lt fun shrinks => h ⟨shrinks, go⟩)

end JassSyntax.Loop
