import JassSyntax.Proofs.Tree.Paths
import JassSyntax.Tree.Dump
import Mathlib.Data.List.Forall2

/-!
# Places in document order

A place in a tree is given by numbers: those of the children to go down to, one after the other. An
element comes before what lies below it and before what lies to its right, so document order is the
order of the dictionary on places. That says what the list of all elements is without a traversal;
the traversal that dumps are made by is then shown to give that list, each element with its depth.
-/

namespace JassSyntax.Tree

/-- The places are those of all elements of the tree, in document order. -/
structure InDocumentOrder (t : Tree) (places : List (List Nat)) : Prop where
  sorted : places.Pairwise (· < ·)
  complete : ∀ place, place ∈ places ↔ (t.follow place).isSome = true

/-! ## All places -/

mutual

/-- The places of all elements, each before those below it. -/
def places : Tree → List (List Nat)
  | token .. | missing .. => [[]]
  | node _ _ _ cs => [] :: placesFrom 0 cs

/-- The places in trees that are the children from a number on. -/
def placesFrom (n : Nat) : List Tree → List (List Nat)
  | [] => []
  | t :: ts => (places t).map (n :: ·) ++ placesFrom (n + 1) ts

end

theorem mem_placesFrom {place : List Nat} {n : Nat} {ts : List Tree} :
    place ∈ placesFrom n ts ↔
      ∃ i below t, place = (n + i) :: below ∧ ts[i]? = some t ∧ below ∈ t.places := by
  induction ts generalizing n with
  | nil => simp [placesFrom]
  | cons t ts ih =>
    rw [placesFrom, List.mem_append, List.mem_map, ih]
    constructor
    · rintro (⟨below, mem, rfl⟩ | ⟨i, below, u, rfl, here, mem⟩)
      · exact ⟨0, below, t, rfl, rfl, mem⟩
      · exact ⟨i + 1, below, u, by rw [Nat.add_right_comm, Nat.add_assoc], here, mem⟩
    · rintro ⟨i, below, u, rfl, here, mem⟩
      cases i with
      | zero =>
        cases here
        exact .inl ⟨below, mem, rfl⟩
      | succ i => exact .inr ⟨i, below, u, by rw [Nat.add_right_comm, Nat.add_assoc], here, mem⟩

theorem mem_places {place : List Nat} {t : Tree} :
    place ∈ t.places ↔ (t.follow place).isSome = true := by
  induction place generalizing t with
  | nil => cases t <;> simp [places, follow]
  | cons n below ih =>
    cases t with
    | token | missing => simp [places, follow]
    | node r k s cs =>
      rw [places, List.mem_cons, mem_placesFrom, follow]
      constructor
      · rintro (absurd | ⟨i, below', t, same, here, mem⟩)
        · cases absurd
        · cases same
          rw [Nat.zero_add, here]
          simpa using ih.mp mem
      · intro found
        cases here : cs[n]? with
        | none => simp [here] at found
        | some t =>
          simp only [here, Option.isSome_map] at found
          exact .inr ⟨n, below, t, by rw [Nat.zero_add], here, ih.mpr found⟩

mutual

theorem pairwise_places : (t : Tree) → t.places.Pairwise (· < ·)
  | token .. | missing .. => List.pairwise_singleton _ _
  | node _ _ _ cs => by
    refine List.pairwise_cons.mpr ⟨fun place mem => ?_, pairwise_placesFrom 0 cs⟩
    obtain ⟨_, _, _, rfl, _⟩ := mem_placesFrom.mp mem
    exact List.nil_lt_cons _ _

theorem pairwise_placesFrom (n : Nat) : (ts : List Tree) → (placesFrom n ts).Pairwise (· < ·)
  | [] => .nil
  | t :: ts => by
    have first : ((places t).map (n :: ·)).Pairwise (· < ·) :=
      List.pairwise_map.mpr ((pairwise_places t).imp List.cons_lt_cons_self.mpr)
    refine List.pairwise_append.mpr ⟨first, pairwise_placesFrom (n + 1) ts, ?_⟩
    intro left leftMem right rightMem
    obtain ⟨_, _, rfl⟩ := List.mem_map.mp leftMem
    obtain ⟨i, _, _, rfl, _⟩ := mem_placesFrom.mp rightMem
    exact List.cons_lt_cons_iff.mpr (.inl (by omega))

end

theorem inDocumentOrder_places (t : Tree) : t.InDocumentOrder t.places where
  sorted := pairwise_places t
  complete _ := mem_places

/-! ## The traversal -/

/-- What a traversal lists for a place below a starting depth: the element there and its depth. -/
def ListedAt (depth : Nat) (t : Tree) (place : List Nat) (entry : Nat × Tree) : Prop :=
  entry.1 = depth + place.length ∧ ∃ way, t.follow place = some (way, entry.2)

mutual

theorem listedAt_leveled (depth : Nat) :
    (t : Tree) → List.Forall₂ (ListedAt depth t) t.places (leveled depth t)
  | token .. | missing .. => .cons ⟨rfl, [], rfl⟩ .nil
  | node r k s cs => by
    refine .cons ⟨rfl, [], rfl⟩ ((listedAt_leveledAll (depth + 1) 0 cs).imp ?_)
    rintro place entry ⟨i, below, t, rfl, here, deep, way, found⟩
    refine ⟨?_, ?_⟩
    · rw [deep, List.length_cons]
      omega
    · rw [follow, Nat.zero_add, here]
      exact ⟨_, congrArg (Option.map _) found⟩

theorem listedAt_leveledAll (depth n : Nat) : (ts : List Tree) →
    List.Forall₂ (fun place entry => ∃ i below t, place = (n + i) :: below ∧ ts[i]? = some t ∧
      ListedAt depth t below entry) (placesFrom n ts) (leveledAll depth ts)
  | [] => .nil
  | t :: ts => by
    have first : List.Forall₂ (fun place entry => ∃ i below u, place = (n + i) :: below ∧
        (t :: ts)[i]? = some u ∧ ListedAt depth u below entry)
        (t.places.map (n :: ·)) (leveled depth t) :=
      List.forall₂_map_left_iff.mpr ((listedAt_leveled depth t).imp
        fun below entry listed => ⟨0, below, t, rfl, rfl, listed⟩)
    refine List.rel_append first ((listedAt_leveledAll depth (n + 1) ts).imp ?_)
    rintro place entry ⟨i, below, u, rfl, here, listed⟩
    exact ⟨i + 1, below, u, by rw [Nat.add_right_comm, Nat.add_assoc], here, listed⟩

end

end JassSyntax.Tree
