import Mathlib.Computability.Language

/-!
# Patterns of characters

A pattern denotes a language. It is matched at the left end of a text by trying: an alternative
before those behind it, a part that may lack before its lack, one more round of a repetition before
its end. `Pattern.reaches` lists how far the matches reach in the order in which they are tried, and
`Pattern.found` is the first of them, which need not be the longest one. It is the longest where the
pattern is steady: where what would be tried later ends before a character that leads nowhere. Then
nothing that has been read is ever given back, and parts are found one behind the other.
-/

namespace JassSyntax

open scoped Computability

/-- A pattern of characters. -/
inductive Pattern where
  | char (passes : Char → Bool)
  | seq (first second : Pattern)
  | alt (first second : Pattern)
  | opt (part : Pattern)
  | star (part : Pattern)

/-- The word is the longest one of the language that the text begins with. -/
structure Longest (L : Language Char) (cs w : List Char) : Prop where
  mem : w ∈ L
  begins : w <+: cs
  longest : ∀ v ∈ L, v <+: cs → v.length ≤ w.length

namespace Pattern

/-- One of the characters. -/
def among (cs : List Char) : Pattern := .char cs.contains

/-- One part or more. -/
def plus (p : Pattern) : Pattern := .seq p (.star p)

/-- The words that a pattern stands for. -/
def language : Pattern → Language Char
  | char passes => {w | ∃ c, passes c = true ∧ w = [c]}
  | seq p q => p.language * q.language
  | alt p q => p.language + q.language
  | opt p => p.language + 1
  | star p => p.language∗

/-- Rounds of `once`, more of them before fewer. A round takes something. -/
def rounds (once : List Char → List Nat) (cs : List Char) : List Nat :=
  ((once cs).filter fun n => 0 < n ∧ n ≤ cs.length).attach.flatMap
    (fun n => (rounds once (cs.drop n.1)).map (n.1 + ·)) ++ [0]
  termination_by cs.length
  decreasing_by
    have fits := (List.mem_filter.mp n.2).2
    rw [decide_eq_true_eq] at fits
    rw [List.length_drop]
    omega

/-- How far the matches of a pattern reach at the left end of a text, in the order of trial. -/
def reaches : Pattern → List Char → List Nat
  | char _, [] => []
  | char passes, c :: _ => if passes c then [1] else []
  | seq p q, cs => (p.reaches cs).flatMap fun n => (q.reaches (cs.drop n)).map (n + ·)
  | alt p q, cs => p.reaches cs ++ q.reaches cs
  | opt p, cs => p.reaches cs ++ [0]
  | star p, cs => rounds p.reaches cs

/-- How far the first match reaches, if there is one. -/
def found (p : Pattern) (cs : List Char) : Option Nat := (p.reaches cs).head?

variable {p q : Pattern} {cs w : List Char} {n m : Nat} {c : Char}

/-! ## Words -/

theorem rounds_eq (once : List Char → List Nat) (cs : List Char) :
    rounds once cs = ((once cs).filter fun n => 0 < n ∧ n ≤ cs.length).flatMap
      (fun n => (rounds once (cs.drop n)).map (n + ·)) ++ [0] := by
  rw [rounds, List.flatMap_subtype (g := fun n => (rounds once (cs.drop n)).map (n + ·))
    fun _ _ => rfl, List.unattach_attach]

theorem mem_rounds {once : List Char → List Nat} : n ∈ rounds once cs ↔
    n = 0 ∨ ∃ i j, i ∈ once cs ∧ 0 < i ∧ i ≤ cs.length ∧ j ∈ rounds once (cs.drop i) ∧
      n = i + j := by
  rw [rounds_eq]
  simp only [List.mem_append, List.mem_flatMap, List.mem_filter, List.mem_map, List.mem_singleton,
    decide_eq_true_eq]
  constructor
  · rintro (⟨i, ⟨mem, pos, fits⟩, j, later, rfl⟩ | rfl)
    · exact .inr ⟨i, j, mem, pos, fits, later, rfl⟩
    · exact .inl rfl
  · rintro (rfl | ⟨i, j, mem, pos, fits, later, rfl⟩)
    · exact .inr rfl
    · exact .inl ⟨i, ⟨mem, pos, fits⟩, j, later, rfl⟩

/-- A beginning of a text in two parts. -/
theorem take_eq_append {v : List Char} (within : n ≤ cs.length) (whole : cs.take n = v ++ w) :
    n = v.length + w.length ∧ cs.take v.length = v ∧ (cs.drop v.length).take w.length = w := by
  have length : n = v.length + w.length := by
    rw [← List.length_append, ← whole, List.length_take, Nat.min_eq_left within]
  rw [length, List.take_add] at whole
  refine ⟨length, List.append_inj whole ?_⟩
  rw [List.length_take]
  omega

theorem take_char (passes : Char → Bool) : n ∈ (char passes).reaches cs ↔
    n ≤ cs.length ∧ cs.take n ∈ (char passes).language := by
  constructor
  · intro mem
    cases cs with
    | nil => cases mem
    | cons c cs =>
        rw [reaches] at mem
        split at mem
        · next pass =>
          cases List.mem_singleton.mp mem
          exact ⟨Nat.succ_le_succ (Nat.zero_le _), c, pass, rfl⟩
        · cases mem
  · rintro ⟨within, c, pass, word⟩
    obtain ⟨one, split, -⟩ := take_eq_append (v := [c]) within word
    cases cs with
    | nil => cases split
    | cons d cs =>
        cases split
        rw [reaches, if_pos pass]
        exact List.mem_singleton.mpr one

/-- If the matches of the parts are words of two languages, then matches of one behind the other are
words of the product. -/
theorem mem_rounds_iff {L : Language Char} {once : List Char → List Nat}
    (words : ∀ cs n, n ∈ once cs ↔ n ≤ cs.length ∧ cs.take n ∈ L) (cs : List Char) (n : Nat) :
    n ∈ rounds once cs ↔ n ≤ cs.length ∧ cs.take n ∈ L∗ := by
  constructor
  · intro mem
    induction length : cs.length using Nat.strongRecOn generalizing cs n with
    | ind k ih =>
        rcases mem_rounds.mp mem with rfl | ⟨i, j, first, pos, fits, later, rfl⟩
        · exact ⟨Nat.zero_le _, Language.nil_mem_kstar L⟩
        · have shorter : (cs.drop i).length < k := by
            rw [List.length_drop]
            omega
          obtain ⟨within, word⟩ := ih _ shorter _ _ later rfl
          rw [List.length_drop] at within
          refine ⟨by omega, ?_⟩
          rw [List.take_add, ← Language.one_add_self_mul_kstar_eq_kstar]
          exact .inr (Language.append_mem_mul ((words cs i).mp first).2 word)
  · rintro ⟨within, word⟩
    obtain ⟨parts, whole, each⟩ := Language.mem_kstar_iff_exists_nonempty.mp word
    induction parts generalizing cs n with
    | nil =>
        rcases List.take_eq_nil_iff.mp whole with rfl | rfl
        · exact mem_rounds.mpr (.inl rfl)
        · exact mem_rounds.mpr (.inl (Nat.le_zero.mp within))
    | cons first parts ih =>
        obtain ⟨⟨mem, some⟩, behind⟩ := List.forall_mem_cons.mp each
        obtain ⟨rfl, front, back⟩ := take_eq_append within whole
        have fits : parts.flatten.length ≤ (cs.drop first.length).length := by
          rw [List.length_drop]
          omega
        have later : parts.flatten ∈ L∗ :=
          Language.mem_kstar.mpr ⟨parts, rfl, fun w part => (behind w part).1⟩
        refine mem_rounds.mpr (.inr ⟨first.length, _, ?_, List.length_pos_iff.mpr some, by omega,
          ih _ _ fits (by rwa [back]) back behind, rfl⟩)
        rw [words, front]
        exact ⟨by omega, mem⟩

/-- The matches of a pattern are the words of its language that the text begins with. -/
theorem mem_reaches (p : Pattern) (cs : List Char) (n : Nat) :
    n ∈ p.reaches cs ↔ n ≤ cs.length ∧ cs.take n ∈ p.language := by
  induction p generalizing cs n with
  | char passes => exact take_char passes
  | seq p q ihp ihq =>
      simp only [reaches, List.mem_flatMap, List.mem_map, ihp, ihq, language, Language.mem_mul]
      constructor
      · rintro ⟨i, ⟨fits, first⟩, j, ⟨within, second⟩, rfl⟩
        rw [List.length_drop] at within
        exact ⟨by omega, _, first, _, second, List.take_add.symm⟩
      · rintro ⟨within, v, first, w, second, whole⟩
        obtain ⟨rfl, front, back⟩ := take_eq_append within whole.symm
        refine ⟨v.length, ⟨by omega, front.symm ▸ first⟩, w.length, ⟨?_, back.symm ▸ second⟩, rfl⟩
        rw [List.length_drop]
        omega
  | alt p q ihp ihq =>
      rw [reaches, List.mem_append, ihp, ihq, ← and_or_left]
      rfl
  | opt p ih =>
      rw [reaches, List.mem_append, ih, List.mem_singleton]
      constructor
      · rintro (⟨within, word⟩ | rfl)
        · exact ⟨within, .inl word⟩
        · exact ⟨Nat.zero_le _, .inr rfl⟩
      · rintro ⟨within, word | none⟩
        · exact .inl ⟨within, word⟩
        · rcases List.take_eq_nil_iff.mp none with rfl | rfl
          · exact .inr rfl
          · exact .inr (Nat.le_zero.mp within)
  | star p ih => exact mem_rounds_iff ih cs n

/-! ## What is found -/

theorem found_mem (found : n ∈ p.found cs) : n ∈ p.reaches cs := List.mem_of_mem_head? found

theorem mem_reaches_seq : n ∈ (seq p q).reaches cs ↔
    ∃ i ∈ p.reaches cs, ∃ j ∈ q.reaches (cs.drop i), i + j = n := by
  rw [reaches, List.mem_flatMap]
  simp only [List.mem_map]

theorem found_eq_none : p.found cs = none ↔ p.reaches cs = [] := List.head?_eq_none_iff

theorem found_char (passes : Char → Bool) (c : Char) (cs : List Char) :
    (char passes).found (c :: cs) = if passes c then some 1 else none := by
  rw [found, reaches]
  split <;> rfl

theorem found_alt (p q : Pattern) (cs : List Char) :
    (alt p q).found cs = (p.found cs).or (q.found cs) := List.head?_append

theorem found_opt (p : Pattern) (cs : List Char) :
    (opt p).found cs = some ((p.found cs).getD 0) := by
  rw [found, reaches, List.head?_append, ← found]
  cases p.found cs <;> rfl

/-- Giving back what the first part has taken does not help the second one. -/
def Settles (p q : Pattern) (cs : List Char) : Prop :=
  ∀ n ∈ p.found cs, q.reaches (cs.drop n) = [] → ∀ m ∈ p.reaches cs, q.reaches (cs.drop m) = []

theorem Settles.found (settles : p.Settles q cs) : (seq p q).found cs =
    (p.found cs).bind fun n => (q.found (cs.drop n)).map (n + ·) := by
  cases first : p.reaches cs with
  | nil => rw [found_eq_none.mpr first, Pattern.found, reaches, first]; rfl
  | cons n later =>
      have here : p.found cs = some n := by rw [Pattern.found, first]; rfl
      have both : (seq p q).reaches cs = (q.reaches (cs.drop n)).map (n + ·) ++
          later.flatMap fun m => (q.reaches (cs.drop m)).map (m + ·) := by
        rw [reaches, first, List.flatMap_cons]
      rw [here, Option.bind_some, Pattern.found, both, List.head?_append, List.head?_map,
        ← Pattern.found]
      cases behind : q.found (cs.drop n) with
      | some k => rfl
      | none =>
          have none := settles n here (found_eq_none.mp behind)
          rw [first] at none
          rw [List.flatMap_eq_nil_iff.mpr]
          · rfl
          · intro m mem
            rw [none m (List.mem_cons_of_mem _ mem)]
            rfl

theorem settles_of_total (total : ∀ cs, q.reaches cs ≠ []) : p.Settles q cs :=
  fun _ _ none => absurd none (total _)

theorem reaches_opt_ne_nil (p : Pattern) (cs : List Char) : (opt p).reaches cs ≠ [] := by
  rw [reaches]
  exact List.append_ne_nil_of_right_ne_nil _ (List.cons_ne_nil _ _)

theorem reaches_star_ne_nil (p : Pattern) (cs : List Char) : (star p).reaches cs ≠ [] := by
  rw [reaches, rounds_eq]
  exact List.append_ne_nil_of_right_ne_nil _ (List.cons_ne_nil _ _)

/-! ## Steadiness -/

/-- The text begins with such a character. -/
def Faces (stop : Char → Prop) (cs : List Char) : Prop := ∃ c ∈ cs.head?, stop c

theorem faces_cons {stop : Char → Prop} : Faces stop (c :: cs) ↔ stop c := by
  simp [Faces]

variable {stop first : Char → Prop}

/-- Every match takes something, and a `first` character to begin with. -/
def Begins (p : Pattern) (first : Char → Prop) : Prop :=
  ∀ cs, ∀ n ∈ p.reaches cs, 0 < n ∧ Faces first cs

/-- Every other match than the first one reaches less far, and up to a `stop`. -/
def SteadyAt (p : Pattern) (stop : Char → Prop) (cs : List Char) : Prop :=
  ∀ n ∈ p.found cs, ∀ m ∈ p.reaches cs, m = n ∨ m < n ∧ Faces stop (cs.drop m)

def Steady (p : Pattern) (stop : Char → Prop) : Prop := ∀ cs, p.SteadyAt stop cs

theorem SteadyAt.congr (steady : p.SteadyAt stop cs) (same : q.reaches cs = p.reaches cs) :
    q.SteadyAt stop cs := by
  unfold SteadyAt Pattern.found
  rw [same]
  exact steady

theorem Faces.mono (faces : Faces stop cs) (sub : ∀ c, stop c → first c) : Faces first cs := by
  obtain ⟨c, head, isStop⟩ := faces
  exact ⟨c, head, sub c isStop⟩

theorem Faces.apart {cs : List Char} (apart : ∀ c, stop c → ¬ first c) (faces : Faces stop cs) :
    ¬ Faces first cs := by
  rintro ⟨c, head, isFirst⟩
  obtain ⟨d, same, isStop⟩ := faces
  cases (Option.mem_def.mp head).symm.trans same
  exact apart c isStop isFirst

theorem begins_char (passes : Char → Bool) : (char passes).Begins (passes · = true) := by
  intro cs n mem
  cases cs with
  | nil => cases mem
  | cons c cs =>
      rw [reaches] at mem
      split at mem
      · next pass =>
        cases List.mem_singleton.mp mem
        exact ⟨Nat.one_pos, faces_cons.mpr pass⟩
      · cases mem

theorem Begins.seq (begins : p.Begins first) (q : Pattern) : (p.seq q).Begins first := by
  intro cs n mem
  obtain ⟨i, here, j, -, rfl⟩ := mem_reaches_seq.mp mem
  obtain ⟨pos, faces⟩ := begins cs i here
  exact ⟨Nat.add_pos_left pos j, faces⟩

theorem Begins.alt {first₁ first₂ : Char → Prop} (left : p.Begins first₁) (right : q.Begins first₂) :
    (p.alt q).Begins fun c => first₁ c ∨ first₂ c := by
  intro cs n mem
  rw [reaches, List.mem_append] at mem
  rcases mem with mem | mem
  · exact (left cs n mem).imp_right fun faces => faces.mono fun _ => .inl
  · exact (right cs n mem).imp_right fun faces => faces.mono fun _ => .inr

theorem Begins.reaches_eq_nil (begins : p.Begins first) (apart : ∀ c, stop c → ¬ first c)
    (faces : Faces stop cs) : p.reaches cs = [] :=
  List.eq_nil_iff_forall_not_mem.mpr fun n mem => faces.apart apart (begins cs n mem).2

/-- A part that begins with no `stop` does not profit from what is given back. -/
theorem SteadyAt.settles (steady : p.SteadyAt stop cs) (begins : q.Begins first)
    (apart : ∀ c, stop c → ¬ first c) : p.Settles q cs := by
  intro n found none m mem
  rcases steady n found m mem with rfl | ⟨-, faces⟩
  · exact none
  · exact begins.reaches_eq_nil apart faces

theorem steady_char (passes : Char → Bool) (stop : Char → Prop) : (char passes).Steady stop := by
  intro cs n found m mem
  refine .inl ?_
  have single : ∀ k ∈ (char passes).reaches cs, k = 1 := by
    intro k mem
    cases cs with
    | nil => cases mem
    | cons c cs =>
        rw [reaches] at mem
        split at mem
        · exact List.mem_singleton.mp mem
        · cases mem
  rw [single m mem, single n (found_mem found)]

theorem settles_char (passes : Char → Bool) (q : Pattern) (cs : List Char) :
    (char passes).Settles q cs := by
  intro n found none m mem
  rcases steady_char passes (fun _ => False) cs n found m mem with rfl | ⟨-, -, -, never⟩
  · exact none
  · exact never.elim

theorem SteadyAt.seq {before : Char → Prop} (left : p.SteadyAt before cs)
    (right : ∀ n ∈ p.found cs, q.SteadyAt stop (cs.drop n)) (settles : p.Settles q cs)
    (idle : ∀ cs, Faces before cs → ∀ k ∈ q.reaches cs, k = 0 ∧ Faces stop cs) :
    (p.seq q).SteadyAt stop cs := by
  intro n found m mem
  rw [settles.found, Option.mem_def, Option.bind_eq_some_iff] at found
  obtain ⟨i, here, behind⟩ := found
  obtain ⟨j, further, rfl⟩ := Option.map_eq_some_iff.mp behind
  obtain ⟨a, first, b, later, rfl⟩ := mem_reaches_seq.mp mem
  rcases left i here a first with rfl | ⟨less, faces⟩
  · rcases right a here j further b later with rfl | ⟨less, faces⟩
    · exact .inl rfl
    · rw [List.drop_drop] at faces
      exact .inr ⟨Nat.add_lt_add_left less a, faces⟩
  · obtain ⟨rfl, faces⟩ := idle _ faces b later
    exact .inr ⟨by omega, faces⟩

theorem SteadyAt.alt (left : p.SteadyAt stop cs) (right : q.SteadyAt stop cs)
    (less : ∀ n ∈ p.found cs, ∀ m ∈ q.reaches cs, m < n ∧ Faces stop (cs.drop m)) :
    (p.alt q).SteadyAt stop cs := by
  intro n found m mem
  rw [found_alt] at found
  rw [reaches, List.mem_append] at mem
  cases here : p.found cs with
  | some k =>
      rw [here] at found
      cases found
      rcases mem with mem | mem
      · exact left n here m mem
      · exact .inr (less n here m mem)
  | none =>
      rw [here] at found
      rw [found_eq_none.mp here] at mem
      exact right n found m (mem.resolve_left List.not_mem_nil)

theorem SteadyAt.opt (steady : p.SteadyAt stop cs)
    (begins : ∀ n ∈ p.reaches cs, 0 < n ∧ Faces stop cs) : p.opt.SteadyAt stop cs := by
  intro n found m mem
  rw [found_opt] at found
  rw [reaches, List.mem_append, List.mem_singleton] at mem
  cases here : p.found cs with
  | some k =>
      rw [here] at found
      cases found
      rcases mem with mem | rfl
      · exact steady k here m mem
      · exact .inr (begins k (found_mem here))
  | none =>
      rw [here] at found
      cases found
      rw [found_eq_none.mp here] at mem
      exact .inl (mem.resolve_left List.not_mem_nil)

/-- A repetition of rounds that take something is none of them, or one and then a repetition. -/
theorem Begins.reaches_star (begins : p.Begins first) (cs : List Char) :
    p.star.reaches cs = (p.seq p.star).opt.reaches cs := by
  have all : ∀ n ∈ p.reaches cs, decide (0 < n ∧ n ≤ cs.length) = true := fun n mem =>
    decide_eq_true ⟨(begins cs n mem).1, ((mem_reaches p cs n).mp mem).1⟩
  show rounds p.reaches cs = _
  rw [rounds_eq, List.filter_eq_self.mpr all]
  rfl

theorem Begins.found_star (begins : p.Begins first) (cs : List Char) : p.star.found cs =
    some (((p.found cs).bind fun n => (p.star.found (cs.drop n)).map (n + ·)).getD 0) := by
  rw [found, begins.reaches_star, ← found, found_opt,
    (settles_of_total (reaches_star_ne_nil p)).found]

theorem Begins.idle_opt (begins : p.Begins first) (apart : ∀ c, stop c → ¬ first c)
    (faces : Faces stop cs) : ∀ n ∈ p.opt.reaches cs, n = 0 := by
  intro n mem
  rw [reaches, begins.reaches_eq_nil apart faces] at mem
  exact List.mem_singleton.mp mem

theorem Begins.idle_star (begins : p.Begins first) (apart : ∀ c, stop c → ¬ first c)
    (faces : Faces stop cs) : ∀ n ∈ p.star.reaches cs, n = 0 := by
  rw [begins.reaches_star]
  exact (begins.seq _).idle_opt apart faces

variable {before : Char → Prop}

theorem Steady.mono (steady : p.Steady before) (sub : ∀ c, before c → stop c) : p.Steady stop := by
  intro cs n found m mem
  rcases steady cs n found m mem with same | ⟨less, faces⟩
  · exact .inl same
  · exact .inr ⟨less, faces.mono sub⟩

theorem Steady.seq (left : p.Steady before) (right : q.Steady stop) (begins : q.Begins first)
    (apart : ∀ c, before c → ¬ first c) : (p.seq q).Steady stop := by
  intro cs
  refine (left cs).seq (fun n _ => right _) ((left cs).settles begins apart) fun cs faces n mem => ?_
  rw [begins.reaches_eq_nil apart faces] at mem
  cases mem

theorem Steady.behind_char (passes : Char → Bool) (steady : q.Steady stop) :
    ((char passes).seq q).Steady stop := by
  intro cs
  refine (steady_char passes (fun _ => False) cs).seq (fun n _ => steady _)
    (settles_char passes q cs) ?_
  rintro cs ⟨_, _, never⟩
  exact never.elim

/-- A second part that may be empty is empty where the first one has given something back. -/
theorem Steady.seq_of_total (left : p.Steady before) (sub : ∀ c, before c → stop c)
    (right : q.Steady stop) (total : ∀ cs, q.reaches cs ≠ [])
    (idle : ∀ cs, Faces before cs → ∀ n ∈ q.reaches cs, n = 0) : (p.seq q).Steady stop := by
  intro cs
  exact (left cs).seq (fun n _ => right _) (settles_of_total total) fun cs faces n mem =>
    ⟨idle cs faces n mem, faces.mono sub⟩

/-- A part that may lack is itself a stop for what lacks it. -/
theorem Steady.opt (steady : p.Steady stop) (begins : p.Begins first)
    (sub : ∀ c, first c → stop c) : p.opt.Steady stop := by
  intro cs
  exact (steady cs).opt fun n mem => (begins cs n mem).imp_right fun faces => faces.mono sub

theorem Steady.star (steady : p.Steady before) (sub : ∀ c, before c → stop c)
    (begins : p.Begins first) (more : ∀ c, first c → stop c)
    (apart : ∀ c, before c → ¬ first c) : p.star.Steady stop := by
  intro cs
  induction length : cs.length using Nat.strongRecOn generalizing cs with
  | ind k ih =>
      have round : (p.seq p.star).SteadyAt stop cs := by
        refine (steady cs).seq (fun n found => ?_) (settles_of_total (reaches_star_ne_nil p))
          fun cs faces n mem => ⟨begins.idle_star apart faces n mem, faces.mono sub⟩
        have pos := (begins cs n (found_mem found)).1
        have fits := ((mem_reaches p cs n).mp (found_mem found)).1
        exact ih _ (by rw [List.length_drop]; omega) _ rfl
      exact (round.opt fun n mem => ((begins.seq _) cs n mem).imp_right fun faces =>
        faces.mono more).congr (begins.reaches_star cs)

end Pattern

end JassSyntax
