/-!
# Sets of names

A set of names in the order of their code points, which is also that of their UTF-8 bytes.
-/

namespace JassSyntax

/-- A set of names, in rising order and so without repetition. -/
structure NameSet where
  toList : List String
  sorted : toList.Pairwise (· < ·)
  deriving DecidableEq, Repr

namespace NameSet

/-- The set without names. -/
def empty : NameSet := ⟨[], .nil⟩

instance : Inhabited NameSet := ⟨empty⟩

instance : Membership String NameSet where
  mem s name := name ∈ s.toList

/-- How many names there are. -/
def size (s : NameSet) : Nat := s.toList.length

/-- Puts a name in its place of a rising list, unless it is there. -/
def place (name : String) : List String → List String
  | [] => [name]
  | other :: rest =>
    if name < other then name :: other :: rest
    else if name = other then other :: rest
    else other :: place name rest

theorem mem_place {name x : String} {names : List String} :
    x ∈ place name names ↔ x = name ∨ x ∈ names := by
  induction names with
  | nil => simp [place]
  | cons other rest ih =>
    unfold place
    split
    · simp
    split
    next eq => subst eq; simp
    · simp only [List.mem_cons, ih]
      grind

theorem pairwise_place (name : String) {names : List String} (h : names.Pairwise (· < ·)) :
    (place name names).Pairwise (· < ·) := by
  induction names with
  | nil => simp [place]
  | cons other rest ih =>
    rw [List.pairwise_cons] at h
    unfold place
    split
    next lt =>
      refine List.pairwise_cons.2 ⟨fun x hx => ?_, List.pairwise_cons.2 h⟩
      rcases List.mem_cons.1 hx with rfl | hx
      · exact lt
      · exact String.lt_trans lt (h.1 x hx)
    split
    · exact List.pairwise_cons.2 h
    next notLt notEq =>
      refine List.pairwise_cons.2 ⟨fun x hx => ?_, ih h.2⟩
      rcases mem_place.1 hx with rfl | hx
      · grind
      · exact h.1 x hx

/-- The set with one more name. -/
def insert (s : NameSet) (name : String) : NameSet :=
  ⟨place name s.toList, pairwise_place _ s.sorted⟩

@[simp] theorem mem_insert {s : NameSet} {name x : String} : x ∈ s.insert name ↔ x = name ∨ x ∈ s :=
  mem_place

theorem not_mem_empty (x : String) : x ∉ empty := List.not_mem_nil

end NameSet

end JassSyntax
