import JassSyntax.Proofs.Limit.Chains
import JassSyntax.Proofs.Simulation.Basic

/-!
# Trees whose nesting can be cut off

What lies beyond the nesting limit is put aside without a trace if it is a body, or if it is an
expression that is put aside as a whole. An operand of an operator may be a chain, since the
expression around it goes on with the operators of the chain.
-/

namespace JassSyntax

/-- How a child is read. The first item of a list is read like the list. -/
def NodeKind.placeOf (k : NodeKind) (first : Bool) (role : Option Role) : Place :=
  if first && k.place role == .item then .beside else k.place role

theorem NodeKind.placeOf_of_ne_item {k : NodeKind} {role : Option Role}
    (single : k.place role ≠ .item) (first : Bool) : k.placeOf first role = k.place role := by
  simp [placeOf, single]

theorem NodeKind.placeOf_of_leads {k : NodeKind} {role : Option Role} (leads : k.Leads role) :
    k.placeOf true role = .beside := by
  rcases leads with rfl | rfl | ⟨rfl, rfl⟩ | ⟨rfl, rfl⟩ <;> rfl

namespace Tree

mutual

/-- Whether nesting in the tree can be cut off where `room` levels are left for what lies inside of
it. -/
def isSeverable (room : Nat) : Tree → Bool
  | node _ k _ cs => areSeverable room k true cs
  | _ => true

/-- Whether nesting can be cut off in the children of a node. Only comments are in front of the
`first` one. -/
def areSeverable (room : Nat) (k : NodeKind) (first : Bool) : List Tree → Bool
  | [] => true
  | c :: cs =>
    (match k.placeOf first c.role, room with
      | .beside, _ => isSeverable room c
      | .body, 0 => true
      | .enclosed, 0 => c.isChain false
      | _, 0 => c.isChain true
      | _, below + 1 => isSeverable below c) &&
    areSeverable room k (first && c.isComment) cs

end

/-- Whether nesting can be cut off in a child of a node that is read with `room` levels left. -/
def isSeverableAt (place : Place) (room : Nat) (t : Tree) : Bool :=
  match place, room with
  | .beside, _ => t.isSeverable room
  | .body, 0 => true
  | .enclosed, 0 => t.isChain false
  | _, 0 => t.isChain true
  | _, below + 1 => t.isSeverable below

variable {room : Nat} {k : NodeKind} {first : Bool} {place : Place}

theorem areSeverable_cons (c : Tree) (cs : List Tree) : areSeverable room k first (c :: cs) =
    (c.isSeverableAt (k.placeOf first c.role) room &&
      areSeverable room k (first && c.isComment) cs) := by
  conv => lhs; unfold areSeverable
  rfl

theorem areSeverable_append (ts us : List Tree) : areSeverable room k first (ts ++ us) =
    (areSeverable room k first ts &&
      areSeverable room k (first && ts.all isComment) us) := by
  induction ts generalizing first with
  | nil => simp [areSeverable]
  | cons t ts ih =>
      rw [List.cons_append, areSeverable_cons, areSeverable_cons, ih, List.all_cons,
        Bool.and_assoc, Bool.and_assoc]

theorem isSeverable_withRole (role : Option Role) (t : Tree) :
    (t.withRole role).isSeverable room = t.isSeverable room := by
  cases t <;> simp [withRole, isSeverable]

theorem isSeverableAt_withRole (role : Option Role) (t : Tree) :
    (t.withRole role).isSeverableAt place room = t.isSeverableAt place room := by
  unfold isSeverableAt
  split <;> simp [isSeverable_withRole, isChain_withRole]

end Tree

namespace Frame

/-- Nesting can be cut off in the children so far. -/
def Severable (room : Nat) (f : Frame) : Prop :=
  Tree.areSeverable room f.kind true f.children.toList = true

variable {room : Nat} {f g : Frame} {t : Tree}

theorem Severable.of_prefix (h : g.Severable room) (kind : g.kind = f.kind)
    (children : f.children.toList <+: g.children.toList) : f.Severable room := by
  obtain ⟨rest, same⟩ := children
  rw [Severable, ← same, Tree.areSeverable_append, Bool.and_eq_true, kind] at h
  exact h.1

theorem Severable.before (h : g.Severable room) (grown : Grows f g) : f.Severable room :=
  h.of_prefix grown.kind grown.children

/-- What is attached is read in its place. -/
theorem Severable.attached {role : Option Role} (h : (f.attach role t).Severable room) :
    t.isSeverableAt
      (f.kind.placeOf ((f.children.toList ++ f.parser.pending).all Tree.isComment) role) room := by
  rw [Severable, children_attach, Tree.areSeverable_append, Bool.and_eq_true,
    Tree.areSeverable_cons, Bool.and_eq_true, Tree.isSeverableAt_withRole, Tree.role_withRole,
    Bool.true_and] at h
  exact h.2.1

theorem Severable.child {role : Option Role} (h : (f.attach role t).Severable room)
    (single : f.kind.place role ≠ .item) : t.isSeverableAt (f.kind.place role) room := by
  have here := h.attached
  rwa [NodeKind.placeOf_of_ne_item single] at here

/-- What a node begins with is read like the node. -/
theorem Severable.leading {p : Parser} {k : NodeKind} {role : Option Role}
    (h : ((p.start k).attach role t).Severable room) (tidy : p.Tidy) (leads : k.Leads role) :
    t.isSeverable room := by
  have here := h.attached
  have comments : ((p.start k).children.toList ++ (p.start k).parser.pending).all
      Tree.isComment = true := by
    rw [List.all_eq_true]
    exact fun u mem => (tidy.pending u (by simpa [Parser.start] using mem)).isComment
  rw [comments, show (p.start k).kind = k from rfl, NodeKind.placeOf_of_leads leads] at here
  exact here

/-- An item behind a comma is not the first one. -/
theorem Severable.item {parser : Parser} (h : ({ f.bump with parser }.attach none t).Severable room)
    (list : f.kind = .expressionList) (comma : f.current = .comma) :
    t.isSeverableAt .item room := by
  obtain ⟨item, head, here⟩ := Parser.head_of_kind comma (by decide)
  have first : ((f.bump.children.toList ++ parser.pending).all Tree.isComment) = false := by
    have mark : (Tree.token none item.token).isComment = false := by
      simp [Tree.isComment, Token.isTrivia, here, Kind.isTrivia]
    rw [children_bump head]
    simp [mark]
  have attached := h.attached
  dsimp only at attached
  rw [first, kind_bump, list] at attached
  exact attached

end Frame

end JassSyntax
