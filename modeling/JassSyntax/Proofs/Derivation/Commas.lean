import JassSyntax.Proofs.Derivation.Faultless
import JassSyntax.Proofs.Derivation.Grouping

/-!
# What commas lead to

Arguments and parameters are lists with commas between their items. Behind a comma among arguments
there is an expression, or a mark of its absence. Behind the last of the parameters a comma may
stand idle, and nothing is said about it. Both are read off the productions.
-/

namespace JassSyntax

open Computability Production

/-! ## Commas in words -/

namespace Tree

def IsComma (t : Tree) : Prop := ∃ token, t.token? = some token ∧ token.kind = .comma

/-- What stands behind each comma among the parts is of the class. -/
def CommasLead (C : List Tree → Prop) (t : Tree) : Prop :=
  ∀ front comma back, t.parts = front ++ comma :: back → comma.IsComma → C back

theorem not_isComma_of_nodeKind {t : Tree} {kind : NodeKind} (node : t.nodeKind? = some kind) :
    ¬ t.IsComma := by
  rintro ⟨token, leaf, -⟩
  cases t with
  | node => cases leaf
  | token | missing => cases node

theorem IsExpression.not_isComma {m : Tolerance} {t : Tree} (h : t.IsExpression m) :
    ¬ t.IsComma := by
  cases h with
  | leaf operand =>
      rintro ⟨token, leaf, comma⟩
      cases leaf
      rw [comma] at operand
      cases operand
  | node node _ | error node _ => exact not_isComma_of_nodeKind node
  | absent =>
      rintro ⟨token, leaf, -⟩
      cases leaf

end Tree

namespace Production

variable {m : Tolerance} {C : List Tree → Prop} {L M N : Language Tree} {u v w : List Tree}

/-- What stands behind each comma of `u`, when `v` follows, is of the class. -/
def WordLeads (C : List Tree → Prop) (u v : List Tree) : Prop :=
  ∀ front comma back, u = front ++ comma :: back → comma.IsComma → C (back ++ v)

theorem wordLeads_append (first : WordLeads C u (v ++ w)) (second : WordLeads C v w) :
    WordLeads C (u ++ v) w := by
  intro front comma back split isComma
  rcases List.append_eq_append_iff.mp split with ⟨more, rfl, behind⟩ | ⟨more, rfl, inside⟩
  · exact second more comma back behind isComma
  -- The comma stands in the first word, or it is the first letter of the second.
  · cases more with
    | nil => exact second [] comma back inside.symm isComma
    | cons t more =>
        obtain ⟨rfl, rfl⟩ := List.cons.inj inside
        have behind := first front comma more rfl isComma
        rwa [← List.append_assoc] at behind

/-- What stands behind each comma of a word, when a word of `M` follows, is of the class. -/
def Leads (C : List Tree → Prop) (L M : Language Tree) : Prop :=
  ∀ w ∈ L, ∀ v ∈ M, WordLeads C w v

namespace Leads

theorem of_each (none : Each (¬ ·.IsComma) L) : Leads C L M := by
  rintro w word v - front comma back rfl isComma
  exact absurd isComma (none _ word comma (by simp))

theorem add (left : Leads C L N) (right : Leads C M N) : Leads C (L + M) N := by
  rintro w (word | word)
  · exact left w word
  · exact right w word

theorem mul (left : Leads C L (M * N)) (right : Leads C M N) : Leads C (L * M) N := by
  rintro _ ⟨u, first, w, second, rfl⟩ v word
  exact wordLeads_append (left u first (w ++ v) (Language.append_mem_mul second word))
    (right w second v word)

theorem star (each : Leads C L (L∗ * N)) : Leads C L∗ N := by
  intro w word v behind
  obtain ⟨words, rfl, mem⟩ := Language.mem_kstar.mp word
  clear word
  induction words with
  | nil => exact fun front comma back split => by simp at split
  | cons u words ih =>
      have later : ∀ w ∈ words, w ∈ L := fun w inside => mem w (List.mem_cons_of_mem u inside)
      have rest : words.flatten ∈ L∗ := Language.join_mem_kstar later
      have behind := each u (mem u List.mem_cons_self) _ (Language.append_mem_mul rest behind)
      exact wordLeads_append behind (ih later)

/-- What follows a comma is what comes behind it. -/
theorem comma (follow : ∀ v ∈ M, C v) : Leads C (token .comma) M := by
  rintro w ⟨t, rfl, shape⟩ v word front other back split isComma
  rcases List.append_eq_singleton_iff.mp split.symm with ⟨_, last⟩ | ⟨_, none⟩
  · cases last
    exact follow v word
  · cases none

end Leads

/-! ## Words without commas -/

theorem each_token {kind : Kind} (other : kind ≠ .comma) (role : Option Role) :
    Each (¬ ·.IsComma) (token kind role) := by
  refine .one ?_
  rintro _ ⟨token, rfl, same⟩ ⟨_, leaf, comma⟩
  cases leaf
  exact other (same.symm.trans comma)

theorem each_nodeOf (passes : NodeKind → Prop) (role : Option Role) :
    Each (¬ ·.IsComma) (nodeOf passes role) :=
  .one fun _ ⟨_, _, node, _⟩ => Tree.not_isComma_of_nodeKind node

theorem each_wanted {kind : Kind} (other : kind ≠ .comma) (role : Option Role) :
    Each (¬ ·.IsComma) (wanted m kind role) := by
  have there := each_token other role
  have junk : Each (¬ ·.IsComma) (junk m) := .repaired (each_nodeOf _ none)
  have absent : Each (¬ ·.IsComma) (placeholder kind role) := by
    refine .one ?_
    rintro _ ⟨position, rfl⟩ ⟨_, leaf, _⟩
    cases leaf
  exact there.add ((junk.mul there).add (.repaired absent))

theorem each_expression (power : Nat) (role : Option Role) :
    Each (¬ ·.IsComma) (expression m power role) :=
  .one fun _ shape => shape.2.1.not_isComma

/-! ## Lists -/

/-- The first tree is of the class. -/
def Heads (D : Tree → Prop) (ts : List Tree) : Prop := ∃ t ∈ ts.head?, D t

theorem heads_mul {D : Tree → Prop} (first : ∀ w ∈ L, Heads D w) : ∀ w ∈ L * M, Heads D w := by
  rintro _ ⟨u, word, v, -, rfl⟩
  obtain ⟨t, head, shape⟩ := first u word
  exact ⟨t, by simp [List.head?_append, Option.mem_def.mp head], shape⟩

theorem heads_one {D E : Tree → Prop} (sub : ∀ t, D t → E t) : ∀ w ∈ one D, Heads E w := by
  rintro _ ⟨t, rfl, shape⟩
  exact ⟨t, rfl, sub t shape⟩

/-- A word of a star with more behind it begins as the star does, unless there is nothing of it. -/
theorem heads_star_mul {D : Tree → Prop} (first : ∀ w ∈ L, Heads D w) :
    ∀ w ∈ L∗ * M, Heads D w ∨ w ∈ M := by
  rintro _ ⟨u, word, v, behind, rfl⟩
  obtain ⟨words, rfl, mem⟩ := Language.mem_kstar.mp word
  cases words with
  | nil => exact .inr behind
  | cons u words =>
      obtain ⟨t, head, shape⟩ := first u (mem u List.mem_cons_self)
      exact .inl ⟨t, by simp [List.head?_append, Option.mem_def.mp head], shape⟩

/-- Behind each comma among arguments comes an expression, or what stands for one. -/
theorem leads_arguments : Leads (Heads (Tree.IsExpression m)) (production m .arguments) 1 := by
  have plain := each_expression (m := m) Power.assignment none
  have first : ∀ w ∈ expression m Power.assignment, Heads (Tree.IsExpression m) w :=
    heads_one fun _ shape => shape.2.1
  -- Behind a comma the list goes on with an item and a comma, or with its last item.
  have list : Leads (Heads (Tree.IsExpression m))
      (commaSeparated (expression m Power.assignment)) (wanted m .rParen * 1) := by
    refine .mul (.star (.mul (.of_each plain) (.comma fun v word => ?_))) (.of_each plain)
    rcases heads_star_mul (heads_mul first) v word with head | word
    · exact head
    · exact heads_mul first v word
  have none : Leads (Heads (Tree.IsExpression m)) 1 (wanted m .rParen * 1) := .of_each .empty
  exact .mul (.mul (.of_each (each_token (by decide) _)) (none.add list))
    (.of_each (each_wanted (by decide) _))

/-- A parameter comes first, or the closing parenthesis and nothing more. -/
def GoesOn (ts : List Tree) : Prop :=
  Heads (fun t => t.nodeKind? = some .parameter) ts ∨
    ∃ closing, ts = [.token none closing] ∧ closing.kind = .rParen

theorem leads_parameters : Leads GoesOn (production .clean .parameters) 1 := by
  have plain := each_nodeOf (· = .parameter) none
  have first : ∀ w ∈ node .parameter,
      Heads (fun t => t.nodeKind? = some .parameter) w := by
    refine heads_one ?_
    rintro t ⟨-, kind, node, rfl⟩
    exact node
  have list : Leads GoesOn (node .parameter * token .comma)∗
      ((1 + node .parameter) * (token .rParen * 1)) := by
    refine .star (.mul (.of_each plain) (.comma fun v word => ?_))
    rcases heads_star_mul (heads_mul first) v word with head | ⟨u, last, w, closing, rfl⟩
    · exact .inl head
    rcases last with rfl | last
    · rw [mul_one] at closing
      obtain ⟨t, rfl, token, rfl, kind⟩ := closing
      exact .inr ⟨token, rfl, kind⟩
    · exact .inl (heads_mul first _ (Language.append_mem_mul last closing))
  have shape : production .clean .parameters = token .lParen *
      ((node .parameter * token .comma)∗ * ((1 + node .parameter) * token .rParen)) := by
    simp [production, junk, mul_assoc]
  rw [shape]
  refine .mul (.of_each (each_token (by decide) _)) (.mul ?_ (.mul (.of_each ?_) (.of_each ?_)))
  · rw [mul_assoc]
    exact list
  · exact .add .empty plain
  · exact each_token (by decide) _

end Production

/-! ## Programs -/

namespace Program

variable {m : Tolerance} {C : List Tree → Prop} {t : Tree} {kind : NodeKind}

theorem commasLead_of_wellBuilt (built : t.WellBuilt m) (leads : Leads C (production m kind) 1)
    (node : t.nodeKind? = some kind) : t.CommasLead C := by
  intro front comma back split isComma
  have behind := leads t.parts (built.derived kind node) [] rfl front comma back split isComma
  rwa [List.append_nil] at behind

/-- **Commas lead on, but for one behind the last parameter.** Right behind each comma among
arguments comes an expression, or a mark that none is there. In a text without errors it is an
expression; and right behind each comma among parameters comes a parameter, or the closing
parenthesis, which is the last part of the list. -/
theorem parse_commas (tokens : List Token) :
    (parse tokens).1.Everywhere (fun t => t.nodeKind? = some .arguments →
      t.CommasLead (Heads (Tree.IsExpression .full))) ∧
    ((parse tokens).2 = [] → (parse tokens).1.Everywhere fun t =>
      (t.nodeKind? = some .arguments → t.CommasLead (Heads (Tree.IsExpression .clean))) ∧
      (t.nodeKind? = some .parameters → t.CommasLead GoesOn)) := by
  constructor
  · have lawful : (parse tokens).1.Lawful .full := parseWithin_lawful maxDepth tokens trivial
    exact lawful.imp fun t built => commasLead_of_wellBuilt built leads_arguments
  · intro faultless
    have lawful : (parse tokens).1.Lawful .clean := parseWithin_lawful maxDepth tokens faultless
    exact lawful.imp fun t built => ⟨commasLead_of_wellBuilt built leads_arguments,
      commasLead_of_wellBuilt built leads_parameters⟩

/-- The text `function f(a,) g(a, b) end`. -/
theorem parse_commas_function :
    let tokens : List Token := [⟨.kwFunction, "function", default⟩, ⟨.identifier, "f", default⟩,
      ⟨.lParen, "(", default⟩, ⟨.identifier, "a", default⟩, ⟨.comma, ",", default⟩,
      ⟨.rParen, ")", default⟩, ⟨.identifier, "g", default⟩, ⟨.lParen, "(", default⟩,
      ⟨.identifier, "a", default⟩, ⟨.comma, ",", default⟩, ⟨.identifier, "b", default⟩,
      ⟨.rParen, ")", default⟩, ⟨.kwEnd, "end", default⟩]
    (parse tokens).2 = [] ∧ (parse tokens).1.Everywhere fun t =>
      (t.nodeKind? = some .arguments → t.CommasLead (Heads (Tree.IsExpression .clean))) ∧
      (t.nodeKind? = some .parameters → t.CommasLead GoesOn) := by
  intro tokens
  have faultless : (parse tokens).2 = [] := by decide +kernel
  exact ⟨faultless, (parse_commas tokens).2 faultless⟩

end Program

end JassSyntax
