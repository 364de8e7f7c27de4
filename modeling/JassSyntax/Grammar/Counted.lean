/-!
# Counted lists

A list that knows its length, so that a loop over it can tell at once whether it got shorter.
-/

namespace JassSyntax

/-- A list and its length. -/
structure Counted (α : Type) where
  toList : List α
  length : Nat
  length_eq : length = toList.length
  deriving Repr

namespace Counted

variable {α : Type}

def ofList (xs : List α) : Counted α := ⟨xs, xs.length, rfl⟩

instance : Inhabited (Counted α) := ⟨ofList []⟩

@[ext] theorem ext {xs ys : Counted α} (h : xs.toList = ys.toList) : xs = ys := by
  obtain ⟨l, n, rfl⟩ := xs
  obtain ⟨m, k, rfl⟩ := ys
  cases h
  rfl

/-- The first element. -/
def head? (xs : Counted α) : Option α := xs.toList.head?

/-- All elements but the first. -/
def tail (xs : Counted α) : Counted α where
  toList := xs.toList.tail
  length := xs.length - 1
  length_eq := by rw [List.length_tail, xs.length_eq]

@[simp] theorem toList_tail (xs : Counted α) : xs.tail.toList = xs.toList.tail := rfl

theorem length_tail_lt {xs : Counted α} {x : α} (h : xs.head? = some x) :
    xs.tail.length < xs.length := by
  obtain ⟨l, n, rfl⟩ := xs
  cases l with
  | nil => cases h
  | cons y ys => simp [tail]

end Counted

end JassSyntax
