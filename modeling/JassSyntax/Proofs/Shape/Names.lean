import JassSyntax.Proofs.Derivation.Commas
import JassSyntax.Proofs.Recovery.Words
import JassSyntax.Proofs.Shape.Constructs
import Mathlib.Data.List.Chain

/-!
# Where names stand

In front of the name of a function, of a struct or of a variable stand no bodies and no values, so
nothing is defined there. What is defined in a declaration of several variables is defined in their
values, and behind each of them but the last there is a comma.
-/

namespace JassSyntax

open Computability Production JassSyntax.Tree

variable {m : Tolerance} {kind : NodeKind}

/-! ## Productions -/

namespace Production

variable {L M : Language Tree}

/-- What stands in front of the first name in a word of the language plays no role. -/
def NameFirst (L : Language Tree) : Prop :=
  ∀ w ∈ L, ∃ u c v, w = u ++ c :: v ∧ (∀ d ∈ u, d.role = none) ∧ c.role = some .name

namespace NameFirst

theorem one {C : Tree → Prop} (name : ∀ t, C t → t.role = some .name) : NameFirst (one C) := by
  rintro _ ⟨t, rfl, shape⟩
  exact ⟨[], t, [], rfl, by simp, name t shape⟩

theorem add (left : NameFirst L) (right : NameFirst M) : NameFirst (L + M) := by
  rintro w (word | word)
  · exact left w word
  · exact right w word

theorem behind (front : Each (·.role = none) L) (name : NameFirst M) : NameFirst (L * M) := by
  rintro _ ⟨x, first, y, second, rfl⟩
  obtain ⟨u, c, v, rfl, plain, role⟩ := name y second
  refine ⟨x ++ u, c, v, (List.append_assoc ..).symm, fun d mem => ?_, role⟩
  exact (List.mem_append.mp mem).elim (front x first d) (plain d)

theorem mul (name : NameFirst L) : NameFirst (L * M) := by
  rintro _ ⟨x, first, y, -, rfl⟩
  obtain ⟨u, c, v, rfl, plain, role⟩ := name x first
  exact ⟨u, c, v ++ y, by simp, plain, role⟩

theorem repaired (name : NameFirst L) : NameFirst (repaired m L) := fun w word => name w word.2

end NameFirst

theorem role_token (kind : Kind) : Each (·.role = none) (token kind) := by
  refine .one ?_
  rintro _ ⟨x, rfl, _⟩
  rfl

theorem nameFirst_wanted (kind : Kind) : NameFirst (wanted m kind (some .name)) := by
  have there : NameFirst (token kind (some .name)) := .one fun t shape => by
    obtain ⟨x, rfl, _⟩ := shape
    rfl
  have absent : NameFirst (placeholder kind (some .name)) := .one fun t shape => by
    obtain ⟨place, rfl⟩ := shape
    rfl
  have aside : Each (·.role = none) (junk m) := .repaired (.one fun t shape => shape.1)
  exact there.add ((there.behind aside).add absent.repaired)

/-- The constructs that give a name to something have it before anything else. -/
theorem nameFirst_production (named : kind ∈ [.functionDefinition, .structDefinition, .declarator]) :
    NameFirst (production m kind) := by
  have parts : NameFirst (node .functionName (some .name)) := .one fun t shape => shape.1
  have name : NameFirst (wanted m .identifier (some .name)) := nameFirst_wanted _
  simp only [List.mem_cons, List.not_mem_nil, or_false] at named
  rcases named with rfl | rfl | rfl
  · exact (((name.add parts).behind (role_token .kwFunction)).mul.mul).mul
  · exact ((name.behind (role_token .kwStruct)).mul).mul
  · exact name.mul

/-- Each word of the language has a tree of the class, and none but that plays the role. -/
def Single (r : Role) (C : Tree → Prop) (L : Language Tree) : Prop :=
  ∀ w ∈ L, ∃ n, C n ∧ ∀ c ∈ w, c.role = some r → c = n

namespace Single

variable {r : Role} {C D : Tree → Prop}

theorem one (sub : ∀ t, D t → C t) : Single r C (one D) := by
  rintro _ ⟨n, rfl, shape⟩
  exact ⟨n, sub n shape, fun c mem _ => List.mem_singleton.mp mem⟩

theorem add (left : Single r C L) (right : Single r C M) : Single r C (L + M) := by
  rintro w (word | word)
  · exact left w word
  · exact right w word

theorem behind (front : Each (·.role ≠ some r) L) (single : Single r C M) :
    Single r C (L * M) := by
  rintro _ ⟨x, first, y, second, rfl⟩
  obtain ⟨n, shape, only⟩ := single y second
  refine ⟨n, shape, fun c mem role => ?_⟩
  exact (List.mem_append.mp mem).elim (fun early => absurd role (front x first c early))
    fun late => only c late role

theorem mul (single : Single r C L) (back : Each (·.role ≠ some r) M) : Single r C (L * M) := by
  rintro _ ⟨x, first, y, second, rfl⟩
  obtain ⟨n, shape, only⟩ := single x first
  refine ⟨n, shape, fun c mem role => ?_⟩
  exact (List.mem_append.mp mem).elim (fun early => only c early role)
    fun late => absurd role (back y second c late)

theorem repaired (single : Single r C L) : Single r C (repaired m L) :=
  fun w word => single w word.2

end Single

/-- A name, which may be one of several parts, or a placeholder. -/
def IsName (t : Tree) : Prop :=
  t.isMissing = true ∨ (∃ token, t.token? = some token ∧ token.kind = .identifier) ∨
    t.nodeKind? = some .functionName

theorem single_wanted : Single .name IsName (wanted m .identifier (some .name)) := by
  have there : Single .name IsName (token .identifier (some .name)) := .one fun t shape => by
    obtain ⟨token, rfl, same⟩ := shape
    exact .inr (.inl ⟨token, rfl, same⟩)
  have absent : Single .name IsName (placeholder .identifier (some .name)) := .one fun t shape => by
    obtain ⟨position, rfl⟩ := shape
    exact .inl rfl
  have aside : Each (·.role ≠ some .name) (junk m) := .repaired (.one fun t shape => by
    rw [shape.1]
    exact nofun)
  exact there.add ((there.behind aside).add absent.repaired)

/-- The constructs that give a name to something have one name. -/
theorem single_production
    (named : kind ∈ [.functionDefinition, .structDefinition, .declarator]) :
    Single .name IsName (production m kind) := by
  have parts : Single .name IsName (node .functionName (some .name)) := .one fun t shape => by
    obtain ⟨-, _, node, rfl⟩ := shape
    exact .inr (.inr node)
  have other {L : Language Tree} (each : Each (Apart [some .name]) L) :
      Each (·.role ≠ some .name) L := fun w word c mem role =>
    (each w word c mem).role (by simp [role])
  have mark (kind : Kind) : Each (·.role ≠ some .name) (token kind) :=
    other (apart_token kind (by decide))
  have behind (closer : Kind) : Each (·.role ≠ some .name) (parameters : Language Tree) ∧
      Each (·.role ≠ some .name) (body : Language Tree) ∧
      Each (·.role ≠ some .name) (closing m closer) := by
    refine ⟨other ?_, other ?_, other ?_⟩
    · grind
    · unfold body
      grind [NodeKind.isClause]
    · unfold closing
      grind
  simp only [List.mem_cons, List.not_mem_nil, or_false] at named
  rcases named with rfl | rfl | rfl
  · obtain ⟨parameters, body, closing⟩ := behind .kwEnd
    exact ((((single_wanted.add parts).behind (mark _)).mul parameters).mul body).mul closing
  · obtain ⟨-, body, closing⟩ := behind .kwEndStruct
    exact ((single_wanted.behind (mark _)).mul body).mul closing
  · refine single_wanted.mul (other ?_)
    grind

/-- Behind a declarator stands nothing but a comma. -/
def Parted (c d : Tree) : Prop := c.role = some .declarator → d.role = none ∧ d.IsComma

theorem parted_of_role {c : Tree} (other : c.role ≠ some .declarator) (d : Tree) : Parted c d :=
  fun same => absurd same other

theorem isChain_declarators {w : List Tree}
    (word : w ∈ commaSeparated (node .declarator (some .declarator))) : w.IsChain Parted := by
  obtain ⟨_, items, _, ⟨last, rfl, -⟩, rfl⟩ := word
  obtain ⟨words, rfl, each⟩ := Language.mem_kstar.mp items
  clear items
  induction words with
  | nil => exact .singleton last
  | cons u words ih =>
      obtain ⟨_, ⟨c, rfl, -⟩, _, ⟨_, rfl, x, rfl, comma⟩, rfl⟩ := each u List.mem_cons_self
      refine List.isChain_cons_cons.mpr ⟨fun _ => ⟨rfl, x, rfl, comma⟩, ?_⟩
      refine List.isChain_cons.mpr ⟨fun d _ => parted_of_role (by simp [role]) d, ?_⟩
      exact ih fun w mem => each w (List.mem_cons_of_mem _ mem)

theorem isChain_append_of_roles {u w : List Tree} (other : ∀ c ∈ u, c.role ≠ some .declarator)
    (chain : w.IsChain Parted) : (u ++ w).IsChain Parted := by
  induction u with
  | nil => exact chain
  | cons c u ih =>
      obtain ⟨here, later⟩ := List.forall_mem_cons.mp other
      exact List.isChain_cons.mpr ⟨fun d _ => parted_of_role here d, ih later⟩

/-- The declarators of a declaration have commas between them. -/
theorem isChain_declaration {w : List Tree} (word : w ∈ production m .variableDeclaration) :
    w.IsChain Parted := by
  obtain ⟨u, heading, v, declarators, rfl⟩ := word
  have apart : Each (Apart [some .declarator])
      (modifier * modifier∗ +
        modifier∗ * wanted m .identifier (some .type) * (token .kwArray (some .modifier))∗) := by
    unfold modifier
    grind
  refine isChain_append_of_roles (fun c mem same => ?_) (isChain_declarators declarators)
  exact (apart u heading c mem).role (by simp [same])

/-- The children of a declaration are neither bodies nor branches. -/
theorem apart_declaration :
    Each (Apart [some .body, some .alternative]) (production m .variableDeclaration) := by
  unfold production modifier commaSeparated
  grind [NodeKind.isClause]

/-- In the role of a declarator there is nothing else. -/
theorem inRole_declarator :
    Each (InRole .declarator (·.nodeKind? = some .declarator))
      (production m .variableDeclaration) := by
  let C : Tree → Prop := InRole .declarator (·.nodeKind? = some .declarator)
  have words : Each C modifier := inRole_tokenOf _ (by decide)
  have type : Each C (wanted m .identifier (some .type)) := inRole_wanted _ (by decide)
  have array : Each C (token .kwArray (some .modifier)) := inRole_tokenOf _ (by decide)
  have comma : Each C (token .comma) := inRole_tokenOf _ (by decide)
  have own : Each C (node .declarator (some .declarator)) := .one fun t shape _ => by
    obtain ⟨-, _, node, rfl⟩ := shape
    exact node
  exact .mul (.add (words.mul words.star) ((words.star.mul type).mul array.star))
    ((own.mul comma).star.mul own)

end Production

/-! ## Children -/

namespace Tree

variable {t n : Tree}

/-- In front of the name stand comments, and what plays no role. -/
theorem exists_split_of_name (named : kind ∈ [.functionDefinition, .structDefinition, .declarator])
    (word : t.parts ∈ production m kind) (first : t.first? .name = some n) :
    ∃ front back, t.children = front ++ n :: back ∧
      ∀ d ∈ front, d.isComment = false → d.role = none := by
  rw [first?, inRole, List.head?_filter, List.find?_eq_some_iff_append] at first
  obtain ⟨role, front, back, split, others⟩ := first
  refine ⟨front, back, split, fun d mem plain => ?_⟩
  have part : d ∈ significant front := List.mem_filter.mpr ⟨mem, by simp [plain]⟩
  obtain ⟨u, c, v, whole, before, name⟩ := nameFirst_production named _ word
  rw [parts, split, significant_append] at whole
  rcases List.append_eq_append_iff.mp whole with ⟨more, rfl, -⟩ | ⟨more, early, later⟩
  · exact before d (List.mem_append_left _ part)
  cases more with
  | nil => exact before d (by rwa [early, List.append_nil] at part)
  | cons e more =>
      obtain ⟨rfl, -⟩ := List.cons.inj later
      have inside : c ∈ significant front := by rw [early]; simp
      have other := others c (List.mem_filter.mp inside).1
      rw [name] at other
      cases other

/-- Two declarators have a comma between them. -/
theorem exists_comma {front mid back : List Tree} {c d : Tree}
    (word : t.parts ∈ production m .variableDeclaration)
    (split : t.children = front ++ c :: (mid ++ d :: back))
    (first : c.role = some .declarator) (plain : c.isComment = false)
    (second : d.role = some .declarator) (plain' : d.isComment = false) :
    ∃ x ∈ mid, x.IsComma := by
  have whole : t.parts =
      significant front ++ c :: (significant mid ++ d :: significant back) := by
    rw [parts, split]
    simp [significant, plain, plain']
  have chain := isChain_declaration word
  rw [whole] at chain
  have behind := (List.isChain_append.mp chain).2.1
  cases between : significant mid with
  | nil =>
      rw [between, List.nil_append, List.isChain_cons_cons] at behind
      have unmarked := (behind.1 first).1
      rw [second] at unmarked
      cases unmarked
  | cons x xs =>
      rw [between, List.cons_append, List.isChain_cons_cons] at behind
      have mem : x ∈ significant mid := by simp [between]
      exact ⟨x, (List.mem_filter.mp mem).1, (behind.1 first).2⟩

end Tree

end JassSyntax
