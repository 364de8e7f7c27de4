import JassSyntax.Proofs.Reading.Moves

/-!
# Regions beyond the nesting limit

How far a region reaches is decided by kinds alone: it counts brackets and blocks. Where the
counting never falls below what it began with, a region goes on, so it passes over whatever is
balanced.
-/

namespace JassSyntax

namespace Kind

variable {k : Kind}

theorem not_isUnary_of_closesNesting (h : k.closesNesting = true) : k.isUnary = false := by
  revert h
  cases k <;> decide

theorem not_opensNesting_of_closesNesting (h : k.closesNesting = true) :
    k.opensNesting = false := by
  revert h
  cases k <;> decide

theorem canStartExpression_of_isUnary (h : k.isUnary = true) :
    k.canStartExpression = true ∧ k.opensNesting = false ∧ k.closesNesting = false := by
  revert h
  cases k <;> decide

end Kind

namespace Item

/-- The kind that the grammar decides by. -/
def kind (item : Item) : Kind := item.token.kind

end Item

namespace Level

/-! ## Counting brackets and blocks -/

/-- How many brackets and blocks are open behind the kinds, if `balance` are in front of them. Where
none is open, nothing that closes one or ends a body may stand. -/
def walk : Nat → List Kind → Option Nat
  | balance, [] => some balance
  | balance, k :: ks =>
    if balance = 0 ∧ (k.closesNesting || k.isClosingKeyword) then none
    else walk (balanceAfter balance k) ks

example : walk 0 [.lParen, .identifier, .rParen] = some 0 ∧ walk 0 [.rParen] = none := by decide

theorem walk_append (balance : Nat) (ks ls : List Kind) :
    walk balance (ks ++ ls) = (walk balance ks).bind fun b => walk b ls := by
  induction ks generalizing balance with
  | nil => rfl
  | cons k ks ih =>
      rw [List.cons_append, walk, walk]
      split
      · rfl
      · exact ih _

theorem balanceAfter_succ {balance : Nat} {k : Kind}
    (open_ : ¬(balance = 0 ∧ (k.closesNesting || k.isClosingKeyword) = true)) :
    balanceAfter (balance + 1) k = balanceAfter balance k + 1 := by
  unfold balanceAfter
  split
  · rfl
  split
  · next closes =>
    have := Nat.pos_of_ne_zero fun zero => open_ ⟨zero, by simp [closes]⟩
    omega
  · rfl

/-- What is passed over is passed over inside more brackets too. -/
theorem walk_succ {balance after : Nat} {ks : List Kind} (h : walk balance ks = some after) :
    walk (balance + 1) ks = some (after + 1) := by
  induction ks generalizing balance with
  | nil => simpa [walk] using h
  | cons k ks ih =>
      rw [walk] at h ⊢
      split at h
      · cases h
      · next open_ =>
        rw [if_neg (by omega), balanceAfter_succ open_]
        exact ih h

/-- A region that ends at what ends bodies goes on over what is walked. -/
theorem regionLength_upTo {stop : Kind → Bool} (closing : ∀ k, stop k → k.isClosingKeyword = true)
    {balance after : Nat} {xs : List Item} (h : walk balance (xs.map Item.kind) = some after)
    (ys : List Item) :
    regionLength (.upTo stop) balance (xs ++ ys) =
      xs.length + regionLength (.upTo stop) after ys := by
  induction xs generalizing balance with
  | nil =>
      cases h
      simp
  | cons x xs ih =>
      rw [List.map_cons, walk] at h
      split at h
      · cases h
      · next open_ =>
        have goes : ¬(balance = 0 ∧ Extent.endsBefore (.upTo stop) x.token.kind = true) :=
          fun ends => open_ ⟨ends.1, by simp [show x.kind.isClosingKeyword from closing _ ends.2]⟩
        rw [List.cons_append, regionLength]
        dsimp only
        rw [if_neg goes, if_neg (fun ends => by cases ends.2), List.length_cons]
        have rest := ih h
        rw [show x.kind = x.token.kind from rfl] at rest
        omega

/-- The region of an operand goes on over what is walked inside its brackets. -/
theorem regionLength_operand {balance after : Nat} {xs : List Item}
    (h : walk balance (xs.map Item.kind) = some after) (ys : List Item) :
    regionLength .operand (balance + 1) (xs ++ ys) =
      xs.length + regionLength .operand (after + 1) ys := by
  induction xs generalizing balance with
  | nil =>
      cases h
      simp
  | cons x xs ih =>
      rw [List.map_cons, walk] at h
      split at h
      · cases h
      · next open_ =>
        have inside : balanceAfter (balance + 1) x.token.kind = balanceAfter balance x.kind + 1 :=
          balanceAfter_succ open_
        rw [List.cons_append, regionLength]
        dsimp only
        rw [if_neg (by omega), inside, if_neg (by omega), ih h, List.length_cons]
        omega

/-! ## Operands -/

/-- The kinds of one operand, with the operators before it, that is put aside as a whole. -/
def IsOperand (ks : List Kind) : Prop :=
  ∀ xs ys : List Item, xs.map Item.kind = ks → regionLength .operand 0 (xs ++ ys) = xs.length

theorem isOperand_single {k : Kind} (starts : k.canStartExpression = true)
    (last : k.isUnary = false) (flat : k.opensNesting = false) : IsOperand [k] := by
  intro xs ys kinds
  obtain ⟨x, rfl, here⟩ := List.map_eq_singleton_iff.mp kinds
  have after : balanceAfter 0 k = 0 := by simp [balanceAfter, flat]
  rw [List.cons_append, regionLength]
  simp [show x.token.kind = k from here, Extent.endsBefore, Extent.endsAfter, starts, after, last]

theorem isOperand_group {opener closer : Kind} {ks : List Kind}
    (starts : opener.canStartExpression = true) (opens : opener.opensNesting = true)
    (balanced : walk 0 ks = some 0) (closes : closer.closesNesting = true) :
    IsOperand (opener :: ks ++ [closer]) := by
  intro xs ys kinds
  obtain ⟨head, last, rfl, heads, lasts⟩ := List.map_eq_append_iff.mp kinds
  obtain ⟨x, inner, rfl, here, inside⟩ := List.map_eq_cons_iff.mp heads
  obtain ⟨y, rfl, there⟩ := List.map_eq_singleton_iff.mp lasts
  have first : balanceAfter 0 x.token.kind = 1 := by
    rw [show x.token.kind = opener from here]
    simp [balanceAfter, opens]
  have final : balanceAfter 1 y.token.kind = 0 := by
    rw [show y.token.kind = closer from there]
    simp [balanceAfter, Kind.not_opensNesting_of_closesNesting closes, closes]
  have ends : Extent.endsAfter .operand y.token.kind = true := by
    rw [show y.token.kind = closer from there]
    simp [Extent.endsAfter, Kind.not_isUnary_of_closesNesting closes]
  have begins : Extent.endsBefore .operand x.token.kind = false := by
    rw [show x.token.kind = opener from here]
    simp [Extent.endsBefore, starts]
  have middle := regionLength_operand (inside ▸ balanced) ([y] ++ ys)
  rw [List.append_assoc, List.cons_append, regionLength]
  dsimp only
  rw [if_neg (by simp [begins]), first, if_neg (by simp), middle, List.cons_append, regionLength]
  dsimp only
  rw [if_neg (by simp), final, if_pos ⟨rfl, ends⟩]
  simp
  omega

theorem isOperand_unary {k : Kind} {ks : List Kind} (unary : k.isUnary = true)
    (operand : IsOperand ks) : IsOperand (k :: ks) := by
  intro xs ys kinds
  obtain ⟨x, rest, rfl, here, inside⟩ := List.map_eq_cons_iff.mp kinds
  obtain ⟨starts, flat, free⟩ := Kind.canStartExpression_of_isUnary unary
  have after : balanceAfter 0 k = 0 := by simp [balanceAfter, flat, free]
  rw [List.cons_append, regionLength]
  simp [show x.token.kind = k from here, Extent.endsBefore, Extent.endsAfter, starts, after, unary,
    operand rest ys inside]
  omega

/-- The kinds of operators that bind at least as tightly as `power`, with an operand behind each of
them. -/
inductive IsTail (power : Nat) : List Kind → Prop
  | nil : IsTail power []
  | cons {op : Kind} {own : Nat} {side : Associativity} {ks rest : List Kind}
      (binary : op.binary? = some (own, side)) (tight : power ≤ own) (operand : IsOperand ks)
      (tail : IsTail power rest) : IsTail power (op :: (ks ++ rest))

namespace IsTail

variable {power loose : Nat} {ks ls : List Kind}

theorem append (first : IsTail power ks) (second : IsTail power ls) :
    IsTail power (ks ++ ls) := by
  induction first with
  | nil => exact second
  | cons binary tight operand _ ih =>
      rw [List.cons_append, List.append_assoc]
      exact .cons binary tight operand ih

theorem mono (h : IsTail power ks) (le : loose ≤ power) : IsTail loose ks := by
  induction h with
  | nil => exact .nil
  | cons binary tight operand _ ih => exact .cons binary (Nat.le_trans le tight) operand ih

/-- No operator between operands binds just as tightly as those before their operand. -/
theorem tighten (h : IsTail Power.unary ks) : IsTail (Power.unary + 1) ks := by
  induction h with
  | nil => exact .nil
  | cons binary tight operand _ ih =>
      have other := Kind.ne_unary_of_binary? binary
      exact .cons binary (by omega) operand ih

end IsTail

end Level

end JassSyntax
