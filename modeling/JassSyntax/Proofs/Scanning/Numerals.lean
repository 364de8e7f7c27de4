import JassSyntax.Proofs.Layout.Numerals
import JassSyntax.Proofs.Scanning.Patterns

/-!
# The languages of numerals

The two patterns of numerals. What each of them finds first is also its longest match, and has the
length that `Numeral.integer` and `Numeral.float` count.
-/

namespace JassSyntax

namespace Pattern

variable {p q : Pattern} {f g : List Char → Nat} {stop first : Char → Prop} {cs : List Char}
  {n m : Nat}

/-- What is said of the characters in a list is decided along the list, not over all characters. -/
instance (priority := high) (cs : List Char) (P : Char → Prop) [DecidablePred P] :
    Decidable (∀ c ∈ cs, P c) := List.decidableBAll P cs

/-- The pattern finds as many characters as the function counts, and nothing where that is zero. -/
def Finds (p : Pattern) (f : List Char → Nat) : Prop :=
  ∀ cs, p.found cs = if f cs = 0 then none else some (f cs)

theorem Finds.getD (finds : p.Finds f) (cs : List Char) : (p.found cs).getD 0 = f cs := by
  rw [finds cs]
  split
  · next none => exact none.symm
  · rfl

theorem Finds.congr (finds : p.Finds f) (same : ∀ cs, g cs = f cs) : p.Finds g :=
  (funext same : g = f) ▸ finds

theorem Finds.eq (finds : p.Finds f) (found : n ∈ p.found cs) : n = f cs := by
  rw [← finds.getD, Option.mem_def.mp found]
  rfl

theorem Finds.mem (finds : p.Finds f) (some : f cs ≠ 0) : f cs ∈ p.found cs := by
  rw [finds, if_neg some]
  rfl

theorem begins_among (cs : List Char) : (among cs).Begins (· ∈ cs) := fun text n mem =>
  ((begins_char _) text n mem).imp_right fun faces => faces.mono fun _ => List.contains_iff_mem.mp

theorem Finds.ne_zero (finds : p.Finds f) (mem : n ∈ p.reaches cs) : f cs ≠ 0 := by
  intro none
  have empty := finds cs
  rw [if_pos none, found_eq_none] at empty
  rw [empty] at mem
  cases mem

theorem finds_among (cs : List Char) : (among cs).Finds (Numeral.oneOf cs) := by
  intro text
  cases text with
  | nil => rfl
  | cons c text =>
      rw [among, found_char, Numeral.oneOf]
      split <;> rfl

theorem Finds.seq (left : p.Finds f) (right : q.Finds g) (settles : ∀ cs, p.Settles q cs) :
    (p.seq q).Finds fun cs =>
      if f cs = 0 ∨ g (cs.drop (f cs)) = 0 then 0 else f cs + g (cs.drop (f cs)) := by
  intro cs
  rw [(settles cs).found, left cs]
  by_cases none : f cs = 0
  · simp [none]
  · rw [if_neg none, Option.bind_some, right]
    by_cases lacks : g (cs.drop (f cs)) = 0
    · simp [lacks]
    · simp [none, lacks]

theorem Finds.seq_opt (left : p.Finds f) (right : q.Finds g) :
    (p.seq q.opt).Finds fun cs => if f cs = 0 then 0 else f cs + g (cs.drop (f cs)) := by
  intro cs
  rw [(settles_of_total (reaches_opt_ne_nil q)).found, left cs]
  by_cases none : f cs = 0
  · simp [none]
  · rw [if_neg none, Option.bind_some, found_opt, right.getD, Option.map_some]
    simp [none]

theorem Finds.opt_seq (left : p.Finds f) (right : q.Finds g) (settles : ∀ cs, p.opt.Settles q cs) :
    (p.opt.seq q).Finds fun cs =>
      if g (cs.drop (f cs)) = 0 then 0 else f cs + g (cs.drop (f cs)) := by
  intro cs
  rw [(settles cs).found, found_opt, left.getD, Option.bind_some, right]
  by_cases lacks : g (cs.drop (f cs)) = 0 <;> simp [lacks]

theorem Finds.alt (left : p.Finds f) (right : q.Finds g) :
    (p.alt q).Finds fun cs => if f cs = 0 then g cs else f cs := by
  intro cs
  rw [found_alt, left cs, right cs]
  by_cases none : f cs = 0 <;> simp [none]

theorem Finds.among_seq (marks : List Char) (finds : q.Finds f) :
    ((among marks).seq q).Finds (Numeral.required marks f) := by
  refine ((finds_among marks).seq finds (settles_char _ q)).congr fun cs => ?_
  cases cs with
  | nil => rfl
  | cons c cs =>
      rw [Numeral.required_cons, Numeral.oneOf_cons]
      by_cases mark : c ∈ marks <;> by_cases none : f cs = 0 <;> simp [mark, none]

/-- No word of a steady pattern reaches further than what is found. -/
theorem Finds.length_le {v : List Char} (finds : p.Finds f) (steady : p.Steady stop)
    (word : v ∈ p.language) (begins : v <+: cs) : v.length ≤ f cs := by
  have reached : v.length ∈ p.reaches cs := by
    rw [mem_reaches, ← List.prefix_iff_eq_take.mp begins]
    exact ⟨begins.length_le, word⟩
  rcases steady cs _ (finds.mem (finds.ne_zero reached)) _ reached with same | ⟨less, -⟩
  · exact Nat.le_of_eq same
  · exact Nat.le_of_lt less

/-- What is found is a word. -/
theorem Finds.word (finds : p.Finds f) (some : f cs ≠ 0) :
    cs.take (f cs) ∈ p.language ∧ (cs.take (f cs)).length = f cs := by
  obtain ⟨fits, word⟩ := (mem_reaches p cs _).mp (found_mem (finds.mem some))
  exact ⟨word, List.length_take_of_le fits⟩

/-- What the second part begins with stands behind what the first part finds. -/
theorem Steady.faces_behind (steady : p.Steady stop) (begins : q.Begins first)
    (apart : ∀ c, stop c → ¬ first c) (mem : m ∈ (p.seq q).reaches cs) :
    ∃ n ∈ p.found cs, Faces first (cs.drop n) := by
  obtain ⟨i, here, j, later, -⟩ := mem_reaches_seq.mp mem
  obtain ⟨n, found⟩ : ∃ n, p.found cs = some n :=
    Option.ne_none_iff_exists'.mp fun none => by rw [found_eq_none.mp none] at here; cases here
  have faces := (begins _ j later).2
  rcases steady cs n found i here with rfl | ⟨-, stops⟩
  · exact ⟨i, found, faces⟩
  · exact absurd faces (stops.apart apart)

end Pattern

namespace Numeral

open Pattern

/-! ## Digits -/

/-- Runs of digits, each behind an underscore. -/
def joined (digit : Char → Bool) : Pattern := star ((among ['_']).seq (plus (.char digit)))

/-- Digits in runs joined by single underscores. -/
def underscored (digit : Char → Bool) : Pattern := (plus (.char digit)).seq (joined digit)

section Digits

variable {digit : Char → Bool}

/-- The digits before anything else. -/
def firstRun (digit : Char → Bool) (cs : List Char) : Nat := (cs.takeWhile digit).length

theorem firstRun_cons (c : Char) (cs : List Char) :
    firstRun digit (c :: cs) = if digit c then 1 + firstRun digit cs else 0 := by
  rw [firstRun, List.takeWhile_cons]
  split
  · rw [List.length_cons, Nat.add_comm, firstRun]
  · rfl

theorem found_star_char (cs : List Char) :
    (star (.char digit)).found cs = some (firstRun digit cs) := by
  induction cs with
  | nil =>
      rw [(begins_char digit).found_star]
      rfl
  | cons c cs ih =>
      rw [(begins_char digit).found_star, found_char, firstRun_cons]
      split
      · rw [Option.bind_some, List.drop_succ_cons, List.drop_zero, ih]
        rfl
      · rfl

theorem finds_plus_char : (plus (.char digit)).Finds (firstRun digit) := by
  intro cs
  rw [plus, (settles_of_total (reaches_star_ne_nil _)).found]
  cases cs with
  | nil => rfl
  | cons c cs =>
      rw [found_char, firstRun_cons]
      split
      · rw [Option.bind_some, List.drop_succ_cons, List.drop_zero, found_star_char, Option.map_some,
          if_neg (by omega)]
      · rfl

/-- How many characters of the runs behind underscores are found. -/
def afterRun (digit : Char → Bool) (cs : List Char) : Nat := ((joined digit).found cs).getD 0

theorem found_joined (cs : List Char) : (joined digit).found cs = some (afterRun digit cs) := by
  rw [afterRun, joined, ((begins_among ['_']).seq _).found_star]
  rfl

theorem afterRun_cons (c : Char) (cs : List Char) : afterRun digit (c :: cs) =
    if c = '_' ∧ firstRun digit cs ≠ 0 then
      1 + (firstRun digit cs + afterRun digit (cs.drop (firstRun digit cs)))
    else 0 := by
  rw [afterRun, joined, ((begins_among ['_']).seq _).found_star, ← joined,
    finds_plus_char.among_seq ['_'], required_cons]
  simp only [List.mem_singleton]
  split
  · rw [if_neg (by omega), Option.bind_some, Nat.add_comm 1 (firstRun digit cs),
      List.drop_succ_cons, found_joined, Option.map_some, Option.getD_some, Option.getD_some]
    omega
  · rfl

/-- Behind the first digits come the runs that are joined to them. -/
theorem runsTail_eq (cs : List Char) :
    runsTail digit cs = firstRun digit cs + afterRun digit (cs.drop (firstRun digit cs)) := by
  induction length : cs.length using Nat.strongRecOn generalizing cs with
  | ind k ih =>
      cases cs with
      | nil =>
          rw [afterRun, joined, ((begins_among ['_']).seq _).found_star]
          rfl
      | cons c cs =>
          rw [List.length_cons] at length
          rw [runsTail_cons, firstRun_cons]
          by_cases yes : digit c = true
          · rw [if_pos yes, if_pos yes, ih _ (by omega) cs rfl, Nat.add_comm 1 (firstRun digit cs),
              List.drop_succ_cons]
            omega
          · rw [if_neg yes, if_neg yes, Nat.zero_add, List.drop_zero, afterRun_cons]
            cases cs with
            | nil => simp [runs, firstRun]
            | cons d ds =>
                rw [List.length_cons] at length
                rw [runs_cons, firstRun_cons]
                by_cases next : digit d = true
                · rw [if_pos next, if_pos next, ih _ (by omega) ds rfl,
                    Nat.add_comm 1 (firstRun digit ds), List.drop_succ_cons]
                  by_cases under : c = '_'
                  · rw [if_pos ⟨under, by omega⟩, if_pos ⟨under, by omega⟩]
                    omega
                  · rw [if_neg fun both => under both.1, if_neg fun both => under both.1]
                · rw [if_neg next, if_neg next]
                  simp

theorem finds_underscored : (underscored digit).Finds (runs digit) := by
  intro cs
  have settles : (plus (.char digit)).Settles (joined digit) cs :=
    settles_of_total (reaches_star_ne_nil _)
  rw [underscored, settles.found, finds_plus_char cs]
  cases cs with
  | nil => rfl
  | cons c cs =>
      rw [runs_cons, firstRun_cons]
      by_cases yes : digit c = true
      · rw [if_pos yes, if_pos yes, if_neg (by omega), if_neg (by omega), runsTail_eq,
          Option.bind_some, found_joined, Nat.add_comm 1 (firstRun digit cs), List.drop_succ_cons,
          Option.map_some]
        congr 1
        omega
      · rw [if_neg yes, if_neg yes]
        rfl

theorem steady_plus_char (digit : Char → Bool) :
    (plus (.char digit)).Steady (digit · = true) := by
  have one := steady_char digit fun _ => False
  have more : (star (.char digit)).Steady (digit · = true) :=
    one.star (fun _ => False.elim) (begins_char digit) (fun _ => id) fun _ => False.elim
  refine one.seq_of_total (fun _ => False.elim) more (reaches_star_ne_nil _) ?_
  rintro cs ⟨_, _, never⟩
  exact never.elim

theorem begins_plus_char (digit : Char → Bool) :
    (plus (.char digit)).Begins (digit · = true) := (begins_char digit).seq _

/-- A digit or an underscore. -/
def OfRuns (digit : Char → Bool) (c : Char) : Prop := digit c = true ∨ c = '_'

instance : DecidablePred (OfRuns digit) := fun c =>
  inferInstanceAs (Decidable (digit c = true ∨ c = '_'))

theorem steady_underscored (score : digit '_' = false) :
    (underscored digit).Steady (OfRuns digit) := by
  have apart : ∀ c, digit c = true → ¬ c ∈ ['_'] := by
    rintro c yes mem
    rw [List.mem_singleton.mp mem, score] at yes
    cases yes
  have group : ((among ['_']).seq (plus (.char digit))).Steady (digit · = true) :=
    (steady_plus_char digit).behind_char _
  have begins := (begins_among ['_']).seq (plus (.char digit))
  refine (steady_plus_char digit).seq_of_total (fun _ => .inl) ?_ (reaches_star_ne_nil _)
    fun cs faces => begins.idle_star apart faces
  exact group.star (fun _ => .inl) begins (fun _ mem => .inr (List.mem_singleton.mp mem)) apart

theorem begins_underscored (digit : Char → Bool) : (underscored digit).Begins (digit · = true) :=
  (begins_plus_char digit).seq _

end Digits

/-- Decimal digits. -/
def decimal : Pattern := underscored Char.isDigit

theorem finds_decimal : decimal.Finds (runs Char.isDigit) := finds_underscored

theorem steady_decimal : decimal.Steady (OfRuns Char.isDigit) := steady_underscored (by decide)

/-! ## Integers -/

/-- Digits behind `0` and a mark. -/
def prefixed (marks : List Char) (digit : Char → Bool) : Pattern :=
  (among ['0']).seq ((among marks).seq (underscored digit))

/-- The digits of an integer. -/
def bodyPattern : Pattern :=
  (prefixed ['x', 'X'] isHexDigit).alt ((prefixed ['b', 'B'] isBinaryDigit).alt decimal)

/-- The suffix of an integer. -/
def suffixPattern : Pattern := ((among ['u', 'U']).seq (among ['l', 'L']).opt).alt (among ['l', 'L'])

/-- Integers. -/
def integerPattern : Pattern := bodyPattern.seq suffixPattern.opt

section Integers

variable {marks : List Char} {digit : Char → Bool} {cs : List Char} {n m : Nat}

theorem finds_prefixed : (prefixed marks digit).Finds (marked marks digit) :=
  ((finds_underscored.among_seq marks).among_seq ['0']).congr marked_eq

theorem finds_body : bodyPattern.Finds integerBody := by
  refine (finds_prefixed.alt (finds_prefixed.alt finds_decimal)).congr fun cs => ?_
  unfold integerBody
  cases marked ['x', 'X'] isHexDigit cs <;> cases marked ['b', 'B'] isBinaryDigit cs <;> rfl

theorem finds_suffix : suffixPattern.Finds integerSuffix := by
  refine (((finds_among _).seq_opt (finds_among _)).alt (finds_among _)).congr fun cs => ?_
  unfold integerSuffix
  cases oneOf ['u', 'U'] cs with
  | zero => simp
  | succ n => simp

theorem finds_integer : integerPattern.Finds integer := by
  refine (finds_body.seq_opt finds_suffix).congr fun cs => ?_
  unfold integer
  cases integerBody cs <;> rfl

/-- What no integer can go on with behind a digit that it gives back. -/
def NoSuffix (c : Char) : Prop := c ∉ ['u', 'U', 'l', 'L']

instance : DecidablePred NoSuffix := fun c => inferInstanceAs (Decidable (c ∉ ['u', 'U', 'l', 'L']))

theorem noSuffix_of_runs (none : ∀ c ∈ ['u', 'U', 'l', 'L'], digit c = false) (c : Char)
    (run : OfRuns digit c) : NoSuffix c := by
  intro mem
  rcases run with yes | rfl
  · rw [none c mem] at yes
    cases yes
  · exact absurd mem (by decide)

theorem steady_prefixed (score : digit '_' = false)
    (none : ∀ c ∈ ['u', 'U', 'l', 'L'], digit c = false) :
    (prefixed marks digit).Steady NoSuffix := by
  have digits := (steady_underscored score).mono (noSuffix_of_runs none)
  exact (digits.behind_char _).behind_char _

/-- The mark of an integer with a prefix stands behind its `0`. -/
theorem marked_cases (some : marked marks digit cs ≠ 0) :
    ∃ mark rest, cs = '0' :: mark :: rest ∧ mark ∈ marks ∧ 2 < marked marks digit cs := by
  unfold marked at some ⊢
  split at some
  · next mark rest =>
    split at some
    · next is =>
      split at some
      · exact absurd rfl some
      · next k runs =>
        refine ⟨mark, rest, rfl, List.contains_iff_mem.mp is, ?_⟩
        have pos := Nat.pos_of_ne_zero runs
        rw [if_pos is]
        omega
    · exact absurd rfl some
  · exact absurd rfl some

theorem decimal_reaches_of_mark {mark : Char} {rest : List Char} (letter : ¬ OfRuns Char.isDigit mark)
    (mem : m ∈ decimal.reaches ('0' :: mark :: rest)) : m = 1 := by
  have single : runs Char.isDigit ('0' :: mark :: rest) = 1 := by
    have other := not_or.mp letter
    rw [runs_cons, if_pos (by decide), runsTail_cons, if_neg other.1,
      if_neg fun both => other.2 both.1]
  have found := finds_decimal.mem (show runs Char.isDigit ('0' :: mark :: rest) ≠ 0 by
    rw [single]; decide)
  rw [single] at found
  have pos := ((begins_underscored Char.isDigit) _ m mem).1
  rcases steady_decimal _ _ found m mem with same | ⟨less, -⟩
  · exact same
  · omega

theorem steady_body : bodyPattern.Steady NoSuffix := by
  have letters : ∀ mark ∈ ['x', 'X', 'b', 'B'], ¬ OfRuns Char.isDigit mark ∧ NoSuffix mark := by
    decide
  have hex : (prefixed ['x', 'X'] isHexDigit).Steady NoSuffix :=
    steady_prefixed (by decide) (by decide)
  have binary : (prefixed ['b', 'B'] isBinaryDigit).Steady NoSuffix :=
    steady_prefixed (by decide) (by decide)
  have digits := steady_decimal.mono (noSuffix_of_runs (by decide))
  -- All that decimal digits match of an integer with a mark is its `0`.
  have zero : ∀ {marks digit cs n m}, marks ⊆ ['x', 'X', 'b', 'B'] →
      n ∈ (prefixed marks digit).found cs → m ∈ decimal.reaches cs →
        m < n ∧ Faces NoSuffix (cs.drop m) := by
    intro marks digit cs n m sub found mem
    obtain ⟨mark, rest, rfl, is, long⟩ := marked_cases (finds_prefixed.ne_zero (found_mem found))
    obtain ⟨other, stop⟩ := letters mark (sub is)
    rw [finds_prefixed.eq found, decimal_reaches_of_mark other mem]
    exact ⟨by omega, faces_cons.mpr stop⟩
  intro cs
  refine (hex cs).alt ((binary cs).alt (digits cs) fun n found m mem => ?_) fun n found m mem => ?_
  · exact zero (by decide) found mem
  · rcases List.mem_append.mp mem with mem | mem
    · obtain ⟨mark, rest, rfl, is, -⟩ := marked_cases (finds_prefixed.ne_zero (found_mem found))
      obtain ⟨_, _, same, other, -⟩ := marked_cases (finds_prefixed.ne_zero mem)
      cases same
      exact absurd other ((by decide : ∀ c ∈ ['x', 'X'], c ∉ ['b', 'B']) mark is)
    · exact zero (by decide) found mem

theorem steady_suffix : suffixPattern.Steady fun _ => True := by
  have lower : ∀ c, False → ¬ c ∈ ['l', 'L'] := fun _ => False.elim
  have long := steady_char ['l', 'L'].contains fun _ => True
  have unsigned := (steady_char ['u', 'U'].contains fun _ => False).seq_of_total (fun _ => False.elim)
    (long.opt (begins_among _) fun _ _ => trivial) (reaches_opt_ne_nil _)
    fun cs faces => (begins_among ['l', 'L']).idle_opt lower faces
  intro cs
  refine (unsigned cs).alt (long cs) fun n found m mem => ?_
  have first := ((begins_among ['u', 'U']).seq _ cs n (found_mem found)).2
  have second := ((begins_among ['l', 'L']) cs m mem).2
  exact absurd second (first.apart (by decide))

/-- Integers are found at their full length. -/
theorem steady_integer : integerPattern.Steady fun _ => True := by
  have begins : suffixPattern.Begins fun c => c ∈ ['u', 'U'] ∨ c ∈ ['l', 'L'] :=
    ((begins_among ['u', 'U']).seq _).alt (begins_among ['l', 'L'])
  have apart : ∀ c, NoSuffix c → ¬(c ∈ ['u', 'U'] ∨ c ∈ ['l', 'L']) := by
    rintro c none (u | l)
    · exact none (List.mem_append_left ['l', 'L'] u)
    · exact none (List.mem_append_right ['u', 'U'] l)
  exact steady_body.seq_of_total (fun _ _ => trivial)
    (steady_suffix.opt begins fun _ _ => trivial) (reaches_opt_ne_nil _)
    fun cs faces => begins.idle_opt apart faces

end Integers

/-! ## Floats -/

/-- The exponent of a float. -/
def exponentPattern : Pattern :=
  (among ['e', 'E']).seq ((among ['+', '-']).opt.seq (plus (.char Char.isDigit)))

/-- The fraction of a float. -/
def fractionPattern : Pattern := (among ['.']).seq decimal

/-- Digits with an exponent. -/
def exponentForm : Pattern := (decimal.seq exponentPattern).seq (among ['f', 'F']).opt

/-- A fraction, where the digits before the point may lack. -/
def fractionForm : Pattern :=
  ((decimal.opt.seq fractionPattern).seq exponentPattern.opt).seq (among ['f', 'F']).opt

/-- Digits that only the mark behind them makes a float. -/
def markForm : Pattern := decimal.seq (among ['f', 'F'])

/-- Floats. -/
def floatPattern : Pattern := exponentForm.alt (fractionForm.alt markForm)

section Floats

variable {cs : List Char} {n m : Nat}

/-- The three letters and the point that tell floats apart do not stand in their digits. -/
theorem apart_of_runs {marks : List Char} (sub : marks ⊆ ['e', 'E', 'f', 'F', '.']) (c : Char)
    (run : OfRuns Char.isDigit c) : c ∉ marks := by
  have all : ∀ d ∈ ['e', 'E', 'f', 'F', '.'], ¬ OfRuns Char.isDigit d := by decide
  exact fun mem => all c (sub mem) run

theorem settles_signed (cs : List Char) :
    (among ['+', '-']).opt.Settles (plus (.char Char.isDigit)) cs := by
  have sign := (steady_char ['+', '-'].contains (· ∈ ['+', '-'])).opt (begins_among _) fun _ => id
  refine (sign cs).settles (begins_plus_char _) ?_
  decide

theorem steady_exponent : exponentPattern.Steady (Char.isDigit · = true) := by
  have sign := (steady_char ['+', '-'].contains (· ∈ ['+', '-'])).opt (begins_among _) fun _ => id
  exact (sign.seq (steady_plus_char _) (begins_plus_char _) (by decide)).behind_char _

theorem begins_exponent : exponentPattern.Begins (· ∈ ['e', 'E']) := (begins_among _).seq _

theorem finds_exponent : exponentPattern.Finds exponent := by
  have signed := ((finds_among ['+', '-']).opt_seq finds_plus_char settles_signed).congr
    signedDigits_eq
  exact (signed.among_seq _).congr exponent_eq

theorem finds_fraction : fractionPattern.Finds fraction :=
  (finds_decimal.among_seq ['.']).congr fraction_eq

theorem begins_fraction : fractionPattern.Begins (· ∈ ['.']) := (begins_among _).seq _

theorem steady_fraction : fractionPattern.Steady (OfRuns Char.isDigit) :=
  steady_decimal.behind_char _

theorem steady_decimal_opt : decimal.opt.Steady (OfRuns Char.isDigit) :=
  steady_decimal.opt (begins_underscored _) fun _ => .inl

theorem steady_whole : (decimal.opt.seq fractionPattern).Steady (OfRuns Char.isDigit) :=
  steady_decimal_opt.seq steady_fraction begins_fraction (apart_of_runs (by decide))

/-- What follows the decimal digits of a float. -/
theorem faces_of_exponentForm (mem : m ∈ exponentForm.reaches cs) :
    Faces (· ∈ ['e', 'E']) (cs.drop (runs Char.isDigit cs)) := by
  obtain ⟨i, first, -⟩ := mem_reaches_seq.mp mem
  obtain ⟨n, found, faces⟩ :=
    steady_decimal.faces_behind begins_exponent (apart_of_runs (by decide)) first
  rwa [finds_decimal.eq found] at faces

theorem faces_of_fractionForm (mem : m ∈ fractionForm.reaches cs) :
    Faces (· ∈ ['.']) (cs.drop (runs Char.isDigit cs)) := by
  obtain ⟨i, first, -⟩ := mem_reaches_seq.mp mem
  obtain ⟨j, whole, -⟩ := mem_reaches_seq.mp first
  obtain ⟨n, found, faces⟩ :=
    steady_decimal_opt.faces_behind begins_fraction (apart_of_runs (by decide)) whole
  rw [found_opt, finds_decimal.getD] at found
  cases found
  exact faces

theorem faces_of_markForm (mem : m ∈ markForm.reaches cs) :
    Faces (· ∈ ['f', 'F']) (cs.drop (runs Char.isDigit cs)) := by
  obtain ⟨n, found, faces⟩ :=
    steady_decimal.faces_behind (begins_among _) (apart_of_runs (by decide)) mem
  rwa [finds_decimal.eq found] at faces

theorem steady_exponentForm : exponentForm.Steady fun _ => True := by
  have mark := (steady_char ['f', 'F'].contains fun _ => True).opt (begins_among _) fun _ _ => trivial
  have scaled := steady_decimal.seq steady_exponent begins_exponent (apart_of_runs (by decide))
  refine scaled.seq_of_total (fun _ _ => trivial) mark (reaches_opt_ne_nil _) fun cs faces => ?_
  exact (begins_among _).idle_opt (fun c digit => apart_of_runs (by decide) c (.inl digit)) faces

theorem steady_fractionForm : fractionForm.Steady fun _ => True := by
  let stop (c : Char) := OfRuns Char.isDigit c ∨ c ∈ ['e', 'E']
  have power : exponentPattern.opt.Steady stop :=
    (steady_exponent.mono fun _ digit => .inl (.inl digit)).opt begins_exponent fun _ => .inr
  have scaled : ((decimal.opt.seq fractionPattern).seq exponentPattern.opt).Steady stop :=
    steady_whole.seq_of_total (fun _ => .inl) power (reaches_opt_ne_nil _) fun cs faces =>
      begins_exponent.idle_opt (apart_of_runs (by decide)) faces
  have mark := (steady_char ['f', 'F'].contains fun _ => True).opt (begins_among _) fun _ _ => trivial
  refine scaled.seq_of_total (fun _ _ => trivial) mark (reaches_opt_ne_nil _) fun cs faces => ?_
  refine (begins_among _).idle_opt ?_ faces
  rintro c (run | letter)
  · exact apart_of_runs (by decide) c run
  · exact (by decide : ∀ c ∈ ['e', 'E'], c ∉ ['f', 'F']) c letter

theorem steady_markForm : markForm.Steady fun _ => True :=
  steady_decimal.seq (steady_char _ _) (begins_among _) (apart_of_runs (by decide))

/-- Floats are found at their full length. -/
theorem steady_float : floatPattern.Steady fun _ => True := by
  intro cs
  refine (steady_exponentForm cs).alt ((steady_fractionForm cs).alt (steady_markForm cs) ?_) ?_
  · intro n found m mem
    have point := faces_of_fractionForm (found_mem found)
    exact absurd (faces_of_markForm mem) (point.apart (by decide))
  · intro n found m mem
    have power := faces_of_exponentForm (found_mem found)
    rcases List.mem_append.mp mem with mem | mem
    · exact absurd (faces_of_fractionForm mem) (power.apart (by decide))
    · exact absurd (faces_of_markForm mem) (power.apart (by decide))

theorem finds_float : floatPattern.Finds float := by
  have scaled := finds_decimal.seq finds_exponent fun cs =>
    (steady_decimal cs).settles begins_exponent (apart_of_runs (by decide))
  have whole := finds_decimal.opt_seq finds_fraction fun cs =>
    (steady_decimal_opt cs).settles begins_fraction (apart_of_runs (by decide))
  have marked := finds_decimal.seq (finds_among ['f', 'F']) fun cs =>
    (steady_decimal cs).settles (begins_among _) (apart_of_runs (by decide))
  have forms := (scaled.seq_opt (finds_among ['f', 'F'])).alt
    (((whole.seq_opt finds_exponent).seq_opt (finds_among ['f', 'F'])).alt marked)
  refine forms.congr fun cs => ?_
  have clash : fraction (cs.drop (runs Char.isDigit cs)) ≠ 0 →
      exponent (cs.drop (runs Char.isDigit cs)) = 0 := by
    intro point
    by_contra power
    have first := (begins_fraction _ _ (found_mem (finds_fraction.mem point))).2
    have second := (begins_exponent _ _ (found_mem (finds_exponent.mem power))).2
    exact absurd second (first.apart (by decide))
  rw [float_eq, toMark, toExponent, fromWhole, floatSuffix]
  generalize whole : runs Char.isDigit cs = w at clash ⊢
  generalize behind : cs.drop w = rest at clash ⊢
  by_cases point : fraction rest = 0
  · -- Without a fraction, the exponent or the mark stands behind the digits.
    by_cases digits : w = 0
    · simp only [point, digits, Nat.add_zero, true_or, if_true]
    · by_cases power : exponent rest = 0
      · by_cases mark : oneOf ['f', 'F'] rest = 0
        · simp [point, digits, power, behind, mark]
        · simp [point, digits, power, behind, mark]
      · simp [point, digits, power, behind]
        omega
  · have power := clash point
    simp [point, power]
    omega

end Floats

/-! ## Numerals -/

/-- The words of integers and of floats. -/
def numerals : Language Char := integerPattern.language + floatPattern.language

/-- The numeral that trying the two patterns finds: the longer match, a float where both are equally
long. -/
def found? (cs : List Char) : Option (Kind × Nat) :=
  let floating := (floatPattern.found cs).getD 0
  let whole := (integerPattern.found cs).getD 0
  if 0 < floating ∧ whole ≤ floating then some (.float, floating)
  else if 0 < whole then some (.number, whole)
  else none

theorem leading?_eq (cs : List Char) : leading? cs = found? cs := by
  unfold found?
  rw [finds_float.getD, finds_integer.getD]
  rfl

/-- What is found first is the longest beginning of the text that is a numeral, and it is a float if
it can be one. -/
theorem leading?_longest {cs : List Char} {k : Kind} {n : Nat} (found : leading? cs = some (k, n)) :
    Longest numerals cs (cs.take n) ∧ (cs.take n).length = n ∧
      (k = .float ∧ cs.take n ∈ floatPattern.language ∨
        k = .number ∧ cs.take n ∉ floatPattern.language) := by
  have whole : ∀ {v}, v ∈ integerPattern.language → v <+: cs → v.length ≤ integer cs :=
    finds_integer.length_le steady_integer
  have floating : ∀ {v}, v ∈ floatPattern.language → v <+: cs → v.length ≤ float cs :=
    finds_float.length_le steady_float
  unfold leading? at found
  split at found
  · next longer =>
    cases found
    obtain ⟨word, length⟩ := finds_float.word (Nat.ne_of_gt longer.1)
    refine ⟨⟨.inr word, List.take_prefix _ _, ?_⟩, length, .inl ⟨rfl, word⟩⟩
    rintro v (mem | mem) begins
    · exact (whole mem begins).trans (longer.2.trans length.ge)
    · exact (floating mem begins).trans length.ge
  · next shorter =>
    split at found
    · next pos =>
      cases found
      obtain ⟨word, length⟩ := finds_integer.word (Nat.ne_of_gt pos)
      have less : float cs < integer cs := by omega
      refine ⟨⟨.inl word, List.take_prefix _ _, ?_⟩, length, .inr ⟨rfl, fun other => ?_⟩⟩
      · rintro v (mem | mem) begins
        · exact (whole mem begins).trans length.ge
        · exact (floating mem begins).trans (less.le.trans length.ge)
      · have within := floating other ( List.take_prefix _ _)
        omega
    · cases found

/-- A text that begins like a numeral begins with one. -/
theorem leading?_isSome {cs : List Char} {afterOperand : Bool}
    (starts : Lexeme.mayStartNumeral afterOperand cs = true) : (leading? cs).isSome = true := by
  have long : 0 < integer cs ∨ 0 < float cs := by
    unfold Lexeme.mayStartNumeral at starts
    split at starts
    · next d rest =>
      -- Without digits before the point, the fraction alone makes a float.
      have digit := (Bool.and_eq_true_iff.mp starts).2
      have whole : runs Char.isDigit ('.' :: d :: rest) = 0 := by
        rw [runs_cons, if_neg (by decide)]
      have point : 0 < fraction ('.' :: d :: rest) := by
        rw [fraction_eq, required_cons, if_pos]
        · omega
        · rw [runs_cons, if_pos digit]
          exact ⟨by decide, by omega⟩
      refine .inr ?_
      rw [float_eq, toMark, toExponent, fromWhole, whole, List.drop_zero, Nat.zero_add]
      rw [if_neg (by omega)]
      omega
    · next c rest _ =>
      have pos : 0 < runs Char.isDigit (c :: rest) := by
        rw [runs_cons, if_pos starts]
        omega
      exact .inl (Nat.lt_of_lt_of_le pos (runs_le_integer _))
    · cases starts
  unfold leading?
  split
  · rfl
  · next shorter =>
    rw [if_pos (by omega)]
    rfl

end Numeral

end JassSyntax
