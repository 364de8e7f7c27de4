import JassSyntax.Token.Lexeme

/-!
# Numerals before a line end

Where a text is cut and goes on with a line end, a numeral before the cut is read as it was. Its
parts follow one another, stand in for one another or need one another, and each way of putting them
together keeps that property. A float is the exception, since its digits alone are none.
-/

namespace JassSyntax

namespace Lexeme

variable {α : Type} {rest more : List Char} {nl : Char}

/-- No more is taken than is there, and a line end behind what is taken changes nothing. -/
structure Delimited (size : α → Nat) (f : List Char → α) : Prop where
  le (cs : List Char) : size (f cs) ≤ cs.length
  cut (taken rest more : List Char) {nl : Char} (lineEnd : isLineEnd nl = true)
    (fits : size (f (taken ++ rest)) ≤ taken.length) : f (taken ++ nl :: more) = f (taken ++ rest)

/-- A line end is none of these characters. -/
def Stops (p : Char → Bool) : Prop := ∀ ⦃c : Char⦄, isLineEnd c = true → p c = false

theorem stops_of {p : Char → Bool} (feed : p '\n' = false) (cr : p '\r' = false) : Stops p := by
  intro c h
  simp only [isLineEnd, Bool.or_eq_true, decide_eq_true_eq] at h
  rcases h with rfl | rfl
  · exact feed
  · exact cr

theorem takeWhile_cut {p : Char → Bool} (stops : Stops p) (lineEnd : isLineEnd nl = true) :
    ∀ {taken : List Char}, ((taken ++ rest).takeWhile p).length ≤ taken.length →
      (taken ++ nl :: more).takeWhile p = (taken ++ rest).takeWhile p
  | [], fits => by
      rw [List.nil_append, List.nil_append, List.takeWhile_cons_of_neg (by simp [stops lineEnd])]
      exact (List.eq_nil_of_length_eq_zero (Nat.le_zero.mp fits)).symm
  | c :: taken, fits => by
      rw [List.cons_append, List.cons_append, List.takeWhile_cons, List.takeWhile_cons]
      rw [List.cons_append, List.takeWhile_cons] at fits
      split
      · next yes =>
        rw [if_pos yes] at fits
        rw [takeWhile_cut stops lineEnd (Nat.le_of_succ_le_succ fits)]
      · rfl

namespace Delimited

variable {f g : List Char → Nat}

/-- One part after the other. -/
theorem seq (hf : Delimited id f) (hg : Delimited id g) :
    Delimited id fun cs => f cs + g (cs.drop (f cs)) where
  le cs := by
    have first := hf.le cs
    have second := hg.le (cs.drop (f cs))
    simp only [id_eq, List.length_drop] at first second ⊢
    omega
  cut taken rest more nl lineEnd fits := by
    simp only [id_eq] at fits
    have first : f (taken ++ rest) ≤ taken.length := by omega
    have same := hf.cut _ _ more lineEnd first
    simp only [same]
    rw [List.drop_append_of_le_length first] at fits ⊢
    rw [List.drop_append_of_le_length first,
      hg.cut _ rest _ lineEnd (by rw [id_eq, List.length_drop]; omega)]

/-- One part, or else the other. -/
theorem orElse (hf : Delimited id f) (hg : Delimited id g) :
    Delimited id fun cs => if f cs = 0 then g cs else f cs where
  le cs := by
    split
    · exact hg.le cs
    · exact hf.le cs
  cut taken rest more nl lineEnd fits := by
    simp only [id_eq] at fits
    have first : f (taken ++ rest) ≤ taken.length := by
      split at fits <;> omega
    simp only [hf.cut _ _ more lineEnd first]
    split at fits
    · next none => rw [if_pos none, if_pos none, hg.cut _ _ _ lineEnd fits]
    · next some => rw [if_neg some, if_neg some]

/-- One part, and after it the other. -/
theorem andThen (hf : Delimited id f) (hg : Delimited id g) :
    Delimited id fun cs => if f cs = 0 then 0 else f cs + g (cs.drop (f cs)) where
  le cs := by
    split
    · exact Nat.zero_le _
    · exact (hf.seq hg).le cs
  cut taken rest more nl lineEnd fits := by
    simp only [id_eq] at fits
    have first : f (taken ++ rest) ≤ taken.length := by
      split at fits <;> omega
    have same := hf.cut _ _ more lineEnd first
    simp only [same]
    split at fits
    · next none => rw [if_pos none, if_pos none]
    · next some =>
      rw [if_neg some, if_neg some]
      simpa only [same] using (hf.seq hg).cut _ _ more lineEnd fits

theorem congr (h : Delimited id f) (same : ∀ cs, g cs = f cs) : Delimited id g :=
  (funext same : g = f) ▸ h

end Delimited

end Lexeme

namespace Numeral

open Lexeme

variable {digit : Char → Bool} {rest more : List Char} {nl : Char}

theorem delimited_oneOf (cs : List Char) (stops : Stops cs.contains) : Delimited id (oneOf cs) where
  le text := by
    cases text with
    | nil => exact Nat.le_refl 0
    | cons c text =>
        rw [id_eq, oneOf, List.length_cons]
        split <;> omega
  cut taken rest more nl lineEnd fits := by
    cases taken with
    | nil =>
        have none : oneOf cs ([] ++ rest) = 0 := Nat.le_zero.mp fits
        rw [none, List.nil_append, oneOf, if_neg (by rw [stops lineEnd]; decide)]
    | cons => rfl

theorem oneOf_cons (cs : List Char) (c : Char) (text : List Char) :
    oneOf cs (c :: text) = if c ∈ cs then 1 else 0 := by
  simp [oneOf]

/-- One of the characters, if the part behind it is there too. -/
def required (cs : List Char) (f : List Char → Nat) (text : List Char) : Nat :=
  if oneOf cs text = 0 ∨ f (text.drop 1) = 0 then 0 else 1 + f (text.drop 1)

theorem required_cons {cs : List Char} {f : List Char → Nat} (c : Char) (text : List Char) :
    required cs f (c :: text) = if c ∈ cs ∧ f text ≠ 0 then 1 + f text else 0 := by
  by_cases here : c ∈ cs <;> by_cases none : f text = 0 <;> simp [required, oneOf_cons, here, none]

theorem delimited_required (cs : List Char) {f : List Char → Nat} (stops : Stops cs.contains)
    (hf : Delimited id f) : Delimited id (required cs f) where
  le text := by
    cases text with
    | nil => exact Nat.le_refl 0
    | cons c text =>
        have behind : f text ≤ text.length := hf.le text
        rw [id_eq, required_cons, List.length_cons]
        split <;> omega
  cut taken rest more nl lineEnd fits := by
    cases taken with
    | nil =>
        have none : required cs f ([] ++ rest) = 0 := Nat.le_zero.mp fits
        have other : nl ∉ cs := fun mem =>
          Bool.false_ne_true ((stops lineEnd).symm.trans (List.contains_iff_mem.mpr mem))
        rw [none, List.nil_append, required_cons, if_neg fun both => other both.1]
    | cons c taken =>
        rw [List.cons_append, required_cons, id_eq, List.length_cons] at fits
        rw [List.cons_append, List.cons_append, required_cons, required_cons]
        by_cases here : c ∈ cs
        · have within : f (taken ++ rest) ≤ taken.length := by
            by_cases none : f (taken ++ rest) = 0
            · omega
            · rw [if_pos ⟨here, none⟩] at fits
              omega
          rw [hf.cut _ _ _ lineEnd within]
        · rw [if_neg fun both => here both.1, if_neg fun both => here both.1]

theorem lineEnd_ne {c d : Char} (lineEnd : isLineEnd c = true) (other : isLineEnd d = false) :
    c ≠ d := by
  rintro rfl
  rw [lineEnd] at other
  cases other

theorem runs_cons (c : Char) (cs : List Char) :
    runs digit (c :: cs) = if digit c then 1 + runsTail digit cs else 0 := by rw [runs]

/-- An underscore counts if digits follow it. -/
theorem runsTail_cons (c : Char) (cs : List Char) :
    runsTail digit (c :: cs) =
      if digit c then 1 + runsTail digit cs
      else if c = '_' ∧ runs digit cs ≠ 0 then 1 + runs digit cs
      else 0 := by
  cases cs with
  | nil => simp [runsTail, runs]
  | cons d ds =>
      rw [runsTail, runs_cons]
      congr 1
      by_cases next : digit d = true
      · rw [if_pos next, if_pos next, ← Nat.add_assoc]
        simp
      · rw [if_neg next, if_neg next]
        simp

mutual

theorem runsTail_le : ∀ cs : List Char, runsTail digit cs ≤ cs.length
  | [] => Nat.le_refl 0
  | c :: cs => by
      have tail := runsTail_le cs
      have runs := runs_le cs
      rw [runsTail_cons, List.length_cons]
      split
      · omega
      · split <;> omega

theorem runs_le : ∀ cs : List Char, runs digit cs ≤ cs.length
  | [] => Nat.le_refl 0
  | c :: cs => by
      have tail := runsTail_le cs
      rw [runs_cons, List.length_cons]
      split <;> omega

end

mutual

theorem runsTail_cut (stops : Stops digit) (lineEnd : isLineEnd nl = true) : ∀ {taken : List Char},
    runsTail digit (taken ++ rest) ≤ taken.length →
      runsTail digit (taken ++ nl :: more) = runsTail digit (taken ++ rest)
  | [], fits => by
      rw [Nat.le_zero.mp fits, List.nil_append, runsTail_cons, if_neg (by simp [stops lineEnd]),
        if_neg fun score => lineEnd_ne lineEnd (by decide) score.1]
  | c :: taken, fits => by
      rw [List.cons_append, runsTail_cons] at fits ⊢
      rw [List.length_cons] at fits
      rw [List.cons_append, runsTail_cons]
      split at fits
      · next yes =>
        rw [if_pos yes, if_pos yes, runsTail_cut stops lineEnd (by omega)]
      · next no =>
        rw [if_neg no, if_neg no]
        by_cases score : c = '_'
        · have within : runs digit (taken ++ rest) ≤ taken.length := by
            by_cases none : runs digit (taken ++ rest) = 0
            · omega
            · rw [if_pos ⟨score, none⟩] at fits
              omega
          rw [runs_cut stops lineEnd within]
        · rw [if_neg fun h => score h.1, if_neg fun h => score h.1]

theorem runs_cut (stops : Stops digit) (lineEnd : isLineEnd nl = true) : ∀ {taken : List Char},
    runs digit (taken ++ rest) ≤ taken.length →
      runs digit (taken ++ nl :: more) = runs digit (taken ++ rest)
  | [], fits => by
      rw [Nat.le_zero.mp fits, List.nil_append, runs_cons, if_neg (by simp [stops lineEnd])]
  | c :: taken, fits => by
      rw [List.cons_append, runs_cons] at fits ⊢
      rw [List.length_cons] at fits
      rw [List.cons_append, runs_cons]
      split at fits
      · next yes => rw [if_pos yes, if_pos yes, runsTail_cut stops lineEnd (by omega)]
      · next no => rw [if_neg no, if_neg no]

end

theorem delimited_runs (stops : Stops digit) : Delimited id (runs digit) where
  le := runs_le
  cut _ _ _ _ lineEnd fits := runs_cut stops lineEnd fits

theorem stops_isDigit : Stops Char.isDigit := stops_of (by decide) (by decide)

/-! ## Integers -/

theorem delimited_integerSuffix : Delimited id integerSuffix := by
  have both := (delimited_oneOf ['u', 'U'] (stops_of (by decide) (by decide))).seq
    (delimited_oneOf ['l', 'L'] (stops_of (by decide) (by decide)))
  refine both.congr fun cs => ?_
  unfold integerSuffix
  split
  · next none => rw [none]; simp
  · rfl

theorem marked_eq {marks : List Char} (cs : List Char) :
    marked marks digit cs = required ['0'] (required marks (runs digit)) cs := by
  rcases cs with _ | ⟨c, _ | ⟨m, cs⟩⟩
  · rfl
  · by_cases zero : c = '0' <;> simp [marked, required, oneOf, zero]
  · by_cases zero : c = '0'
    · cases zero
      rw [marked, required_cons, required_cons]
      by_cases mark : m ∈ marks
      · cases runs digit cs with
        | zero => simp
        | succ n =>
            simp [mark]
            omega
      · simp [mark]
    · simp [marked, required_cons, zero]

theorem delimited_marked (marks : List Char) (mark : Stops marks.contains) (stops : Stops digit) :
    Delimited id (marked marks digit) :=
  (delimited_required _ (stops_of (by decide) (by decide))
    (delimited_required _ mark (delimited_runs stops))).congr marked_eq

theorem delimited_integerBody : Delimited id integerBody := by
  have hex := delimited_marked ['x', 'X'] (stops_of (by decide) (by decide))
    (show Stops isHexDigit from stops_of (by decide) (by decide))
  have binary := delimited_marked ['b', 'B'] (stops_of (by decide) (by decide))
    (show Stops isBinaryDigit from stops_of (by decide) (by decide))
  refine (hex.orElse (binary.orElse (delimited_runs stops_isDigit))).congr fun cs => ?_
  unfold integerBody
  split
  · next none =>
    rw [if_pos none]
    split
    · next none => rw [if_pos none]
    · next some => rw [if_neg some]
  · next some => rw [if_neg some]

theorem delimited_integer : Delimited id integer := by
  refine (delimited_integerBody.andThen delimited_integerSuffix).congr fun cs => ?_
  unfold integer
  split
  · next none => rw [if_pos none]
  · next some => rw [if_neg some]

/-! ## Floats -/

theorem fraction_eq (cs : List Char) : fraction cs = required ['.'] (runs Char.isDigit) cs := by
  cases cs with
  | nil => rfl
  | cons c cs =>
      rw [required_cons]
      by_cases point : c = '.'
      · cases point
        rw [fraction]
        cases runs Char.isDigit cs <;> simp
      · simp [fraction, point]

theorem delimited_fraction : Delimited id fraction :=
  (delimited_required ['.'] (stops_of (by decide) (by decide))
    (delimited_runs stops_isDigit)).congr fraction_eq

/-- A digit, or more of them. -/
def digits (cs : List Char) : Nat := (cs.takeWhile Char.isDigit).length

theorem delimited_digits : Delimited id digits where
  le _ := (List.takeWhile_sublist _).length_le
  cut _ _ _ _ lineEnd fits := congrArg List.length (takeWhile_cut stops_isDigit lineEnd fits)

/-- Digits behind a sign, or digits alone. -/
def signedDigits (cs : List Char) : Nat :=
  if required ['+', '-'] digits cs = 0 then digits cs else required ['+', '-'] digits cs

theorem digits_cons_of_sign {c : Char} (sign : c ∈ ['+', '-']) (cs : List Char) :
    digits (c :: cs) = 0 := by
  have other : ∀ d ∈ ['+', '-'], d.isDigit = false := by simp
  rw [digits, List.takeWhile_cons_of_neg (by rw [other c sign]; decide), List.length_nil]

theorem signedDigits_eq (cs : List Char) : signedDigits cs =
    if digits (cs.drop (oneOf ['+', '-'] cs)) = 0 then 0
    else oneOf ['+', '-'] cs + digits (cs.drop (oneOf ['+', '-'] cs)) := by
  cases cs with
  | nil => rfl
  | cons c cs =>
      rw [signedDigits, required_cons]
      by_cases sign : c ∈ ['+', '-']
      · rw [oneOf_cons, if_pos sign, digits_cons_of_sign sign, List.drop_succ_cons, List.drop_zero]
        by_cases none : digits cs = 0
        · simp [none]
        · simp [sign, none]
      · have no : ¬(c ∈ ['+', '-'] ∧ digits cs ≠ 0) := fun both => sign both.1
        rw [oneOf_cons, if_neg sign, List.drop_zero, if_neg no, if_pos rfl, Nat.zero_add]
        split
        · assumption
        · rfl

theorem exponent_eq (cs : List Char) : exponent cs = required ['e', 'E'] signedDigits cs := by
  cases cs with
  | nil => rfl
  | cons c cs =>
      rw [required_cons]
      by_cases mark : c ∈ ['e', 'E']
      · have behind : (c :: cs).drop (1 + oneOf ['+', '-'] cs) = cs.drop (oneOf ['+', '-'] cs) := by
          rw [Nat.add_comm, List.drop_succ_cons]
        unfold exponent
        simp only [oneOf_cons _ c, if_pos mark, List.drop_succ_cons, List.drop_zero, behind,
          signedDigits_eq]
        rw [← digits]
        generalize digits (cs.drop (oneOf ['+', '-'] cs)) = k
        cases k with
        | zero => simp
        | succ k =>
            simp [mark]
            omega
      · rw [if_neg fun both => mark both.1]
        unfold exponent
        rw [oneOf_cons, if_neg mark]
        rfl

theorem delimited_exponent : Delimited id exponent := by
  have signs : Stops ['+', '-'].contains := stops_of (by decide) (by decide)
  have signed : Delimited id signedDigits :=
    (delimited_required _ signs delimited_digits).orElse delimited_digits
  exact (delimited_required _ (stops_of (by decide) (by decide)) signed).congr exponent_eq

/-- A float's digits with its fraction. -/
def fromWhole (cs : List Char) : Nat :=
  runs Char.isDigit cs + fraction (cs.drop (runs Char.isDigit cs))

/-- They and the exponent. -/
def toExponent (cs : List Char) : Nat := fromWhole cs + exponent (cs.drop (fromWhole cs))

/-- They and the mark of a float. -/
def toMark (cs : List Char) : Nat := toExponent cs + floatSuffix (cs.drop (toExponent cs))

theorem float_eq (cs : List Char) : float cs =
    if fromWhole cs = 0 ∨ toMark cs = runs Char.isDigit cs then 0 else toMark cs := rfl

theorem delimited_fromWhole : Delimited id fromWhole :=
  (delimited_runs stops_isDigit).seq delimited_fraction

theorem delimited_toMark : Delimited id toMark :=
  (delimited_fromWhole.seq delimited_exponent).seq
    (delimited_oneOf _ (stops_of (by decide) (by decide)))

theorem float_le (cs : List Char) : float cs ≤ cs.length := by
  rw [float_eq]
  split
  · exact Nat.zero_le _
  · exact delimited_toMark.le cs

/-- What is no float may still begin with digits. They have to be there too. -/
theorem float_cut {taken : List Char} (lineEnd : isLineEnd nl = true)
    (fits : float (taken ++ rest) ≤ taken.length)
    (digits : runs Char.isDigit (taken ++ rest) ≤ taken.length) :
    float (taken ++ nl :: more) = float (taken ++ rest) := by
  have runs := (delimited_runs stops_isDigit).cut _ _ more lineEnd digits
  rw [float_eq] at fits
  rw [float_eq, float_eq, runs]
  by_cases none : fromWhole (taken ++ rest) = 0
  · have same := delimited_fromWhole.cut _ _ more lineEnd (none ▸ Nat.zero_le _)
    rw [if_pos (.inl (same.trans none)), if_pos (.inl none)]
  · -- A float that would be its whole part only is no float, but its digits are there.
    have within : toMark (taken ++ rest) ≤ taken.length := by
      split at fits
      · next whole => exact (whole.resolve_left none) ▸ digits
      · exact fits
    have through : fromWhole (taken ++ rest) ≤ taken.length := by
      unfold toMark toExponent at within
      omega
    rw [delimited_toMark.cut _ _ _ lineEnd within, delimited_fromWhole.cut _ _ _ lineEnd through]

/-! ## Numerals -/

theorem runsTail_of_mark {marks : List Char} {f : List Char → Nat}
    (letters : ∀ m ∈ marks, m.isDigit = false ∧ m ≠ '_') {cs : List Char}
    (h : required marks f cs ≠ 0) : runsTail Char.isDigit cs = 0 := by
  cases cs with
  | nil => rfl
  | cons m cs =>
      rw [required_cons] at h
      split at h
      · next mark =>
        obtain ⟨digit, score⟩ := letters m mark.1
        rw [runsTail_cons, if_neg (by rw [digit]; decide), if_neg fun both => score both.1]
      · exact absurd rfl h

/-- A mark ends the decimal digits before it. -/
theorem runs_le_marked {marks : List Char} (letters : ∀ m ∈ marks, m.isDigit = false ∧ m ≠ '_')
    {cs : List Char} (h : marked marks digit cs ≠ 0) :
    runs Char.isDigit cs ≤ marked marks digit cs := by
  rw [marked_eq] at h ⊢
  cases cs with
  | nil => exact absurd rfl h
  | cons c cs =>
      rw [required_cons] at h ⊢
      split at h
      · next both =>
        rw [if_pos both, runs_cons, runsTail_of_mark letters both.2]
        split <;> omega
      · exact absurd rfl h

theorem runs_le_integer (cs : List Char) : runs Char.isDigit cs ≤ integer cs := by
  have body : runs Char.isDigit cs ≤ integerBody cs := by
    unfold integerBody
    split
    · split
      · exact Nat.le_refl _
      · next some => exact runs_le_marked (by simp) some
    · next some => exact runs_le_marked (by simp) some
  unfold integer
  split
  · next none => exact none ▸ body
  · omega

end Numeral

end JassSyntax
