import JassSyntax.Proofs.Layout.Numerals

/-!
# Lexemes before a line end

Where a text is cut behind a lexeme and goes on with a line end, the same lexeme is read. The inside
of a string or of a block comment ends at the same closing, whatever comes after it.
-/

namespace JassSyntax

namespace Lexeme

open Numeral

variable {taken rest more : List Char} {nl : Char}

/-- How long a lexeme is, where there is one. -/
def length? (found : Option (Kind × Nat)) : Nat := (found.map Prod.snd).getD 0

theorem length?_leading? (cs : List Char) :
    length? (Numeral.leading? cs) = max (float cs) (integer cs) := by
  unfold Numeral.leading? length?
  split
  · next both =>
    simp only [Option.map_some, Option.getD_some]
    omega
  split
  · simp only [Option.map_some, Option.getD_some]
    omega
  · simp only [Option.map_none, Option.getD_none]
    omega

theorem delimited_leading? : Delimited length? Numeral.leading? where
  le cs := by
    rw [length?_leading?]
    exact Nat.max_le.mpr ⟨float_le cs, delimited_integer.le cs⟩
  cut taken rest more nl lineEnd fits := by
    rw [length?_leading?] at fits
    obtain ⟨float, integer⟩ := Nat.max_le.mp fits
    have runs := Nat.le_trans (runs_le_integer (taken ++ rest)) integer
    rw [Numeral.leading?, Numeral.leading?, float_cut lineEnd float runs,
      delimited_integer.cut _ _ _ lineEnd integer]

theorem stops_isLineEnd : Stops (!isLineEnd ·) := fun _ h => by simp [h]

/-- A shorter text than is needed is nothing. -/
theorem eq_none_of_length? {found : Option (Kind × Nat)} {n : Nat} (short : length? found ≤ n)
    (long : ∀ k m, found = some (k, m) → n < m) : found = none := by
  cases found with
  | none => rfl
  | some x => exact absurd short (Nat.not_le_of_lt (long x.1 x.2 rfl))

theorem two_le_comment? {cs : List Char} {k : Kind} {n : Nat} (h : comment? cs = some (k, n)) :
    2 ≤ n := by
  unfold comment? at h
  split at h <;> cases h
  · exact Nat.le_add_right _ _
  · exact Nat.le_refl _

theorem comment?_of_second {d : Char} (slash : d ≠ '/') (star : d ≠ '*') (c : Char)
    (cs : List Char) : comment? (c :: d :: cs) = none := by
  unfold comment?
  split
  · next h => cases h; exact absurd rfl slash
  · next h => cases h; exact absurd rfl star
  · rfl

theorem comment?_of_first {c : Char} (slash : c ≠ '/') (cs : List Char) :
    comment? (c :: cs) = none := by
  unfold comment?
  split
  · next h => cases h; exact absurd rfl slash
  · next h => cases h; exact absurd rfl slash
  · rfl

theorem delimited_comment? : Delimited length? comment? where
  le cs := by
    unfold comment?
    split
    · next rest =>
      have line := (List.takeWhile_sublist (l := rest) (!isLineEnd ·)).length_le
      simp only [length?, Option.map_some, Option.getD_some, List.length_cons]
      omega
    · simp only [length?, Option.map_some, Option.getD_some, List.length_cons]
      omega
    · exact Nat.zero_le _
  cut taken rest more nl lineEnd fits := by
    match taken, fits with
    | [], fits =>
        have none := eq_none_of_length? fits fun _ _ h =>
          Nat.lt_of_lt_of_le (by decide) (two_le_comment? h)
        rw [none, List.nil_append, comment?_of_first (lineEnd_ne lineEnd (by decide))]
    | [c], fits =>
        have none := eq_none_of_length? fits fun _ _ h => two_le_comment? h
        rw [none]
        exact comment?_of_second (lineEnd_ne lineEnd (by decide)) (lineEnd_ne lineEnd (by decide)) c
          more
    | c :: d :: taken, fits =>
        simp only [List.cons_append] at fits ⊢
        by_cases slash : c = '/'
        · cases slash
          by_cases line : d = '/'
          · cases line
            have within : ((taken ++ rest).takeWhile (!isLineEnd ·)).length ≤ taken.length := by
              simp only [comment?, length?, Option.map_some, Option.getD_some,
                List.length_cons] at fits
              omega
            simp only [comment?, takeWhile_cut stops_isLineEnd lineEnd within]
          by_cases block : d = '*'
          · cases block
            rfl
          · rw [comment?_of_second line block, comment?_of_second line block]
        · rw [comment?_of_first slash, comment?_of_first slash]

theorem delimited_openingQuote? : Delimited length? openingQuote? where
  le cs := by
    unfold openingQuote?
    split
    · split
      · exact Nat.le_add_left 1 _
      · exact Nat.zero_le _
    · exact Nat.le_refl 0
  cut taken rest more nl lineEnd fits := by
    cases taken with
    | nil =>
        have none := eq_none_of_length? fits fun k m h => by
          unfold openingQuote? at h
          split at h
          · split at h <;> cases h
            decide
          · cases h
        rw [none, List.nil_append, openingQuote?,
          if_neg (by rw [stops_of (p := isQuote) (by decide) (by decide) lineEnd]; decide)]
    | cons => rfl

theorem two_le_leading?_of_point {d : Char} (digit : d.isDigit = true) (cs : List Char) :
    2 ≤ length? (Numeral.leading? ('.' :: d :: cs)) := by
  rw [length?_leading?]
  refine Nat.le_trans ?_ (Nat.le_max_left _ _)
  have whole : runs Char.isDigit ('.' :: d :: cs) = 0 := by rw [runs_cons]; exact if_neg (by decide)
  have point : fromWhole ('.' :: d :: cs) = 2 + runsTail Char.isDigit cs := by
    rw [fromWhole, whole, List.drop_zero, fraction, runs_cons, if_pos digit, Nat.add_comm 1]
    simp only
    omega
  have mark : fromWhole ('.' :: d :: cs) ≤ toMark ('.' :: d :: cs) := by
    rw [toMark, toExponent]
    omega
  rw [float_eq, if_neg (by omega)]
  omega

/-- A point alone is not followed by a digit that would make it a numeral. -/
theorem mayStartNumeral_cut {afterOperand : Bool} (more : List Char) (lineEnd : isLineEnd nl = true)
    (fits : length? (numeral? afterOperand (taken ++ rest)) ≤ taken.length) :
    mayStartNumeral afterOperand (taken ++ nl :: more) =
        mayStartNumeral afterOperand (taken ++ rest) ∨
      numeral? afterOperand (taken ++ nl :: more) = none ∧
        numeral? afterOperand (taken ++ rest) = none := by
  have digit : nl.isDigit = false := stops_isDigit lineEnd
  have head : ∀ c cs, c ≠ '.' → mayStartNumeral afterOperand (c :: cs) = c.isDigit := by
    intro c cs other
    unfold mayStartNumeral
    split
    · next h => cases h; exact absurd rfl other
    · next h => cases h; rfl
    · next h => cases h
  match taken, fits with
  | [], fits =>
      have none := eq_none_of_length? fits fun k m h => by
        unfold numeral? at h
        split at h
        · exact Numeral.leading?_pos h
        · cases h
      refine .inr ⟨?_, none⟩
      rw [List.nil_append, numeral?, head nl more (lineEnd_ne lineEnd (by decide)), digit]
      rfl
  | [c], fits =>
      by_cases point : c = '.'
      · cases point
        have cut : numeral? afterOperand ('.' :: nl :: more) = none := by
          simp [numeral?, mayStartNumeral, digit]
        refine .inr ⟨cut, ?_⟩
        rw [numeral?] at fits ⊢
        split at fits
        · next may =>
          cases rest with
          | nil => cases may
          | cons d cs =>
              have next : d.isDigit = true := by
                simp only [List.cons_append, List.nil_append, mayStartNumeral,
                  Bool.and_eq_true] at may
                exact may.2
              -- A point with a digit behind it would be two characters long.
              exact absurd (two_le_leading?_of_point next cs)
                (Nat.not_le_of_lt (Nat.lt_succ_of_le fits))
        · next no => rw [if_neg no]
      · exact .inl ((head c (nl :: more) point).trans (head c rest point).symm)
  | c :: d :: taken, fits =>
      left
      by_cases point : c = '.'
      · cases point
        rfl
      · exact (head c _ point).trans (head c _ point).symm

theorem delimited_numeral? (afterOperand : Bool) : Delimited length? (numeral? afterOperand) where
  le cs := by
    unfold numeral?
    split
    · exact delimited_leading?.le cs
    · exact Nat.zero_le _
  cut taken rest more nl lineEnd fits := by
    rcases mayStartNumeral_cut more lineEnd fits with same | ⟨cut, whole⟩
    · rw [numeral?] at fits
      rw [numeral?, numeral?, same]
      split at fits
      · next may => rw [if_pos may, if_pos may, delimited_leading?.cut _ _ _ lineEnd fits]
      · next no => rw [if_neg no, if_neg no]
    · rw [cut, whole]

theorem delimited_word? : Delimited length? word? where
  le cs := by
    unfold word?
    split
    · exact Nat.le_refl 0
    · next rest =>
      have word := (List.takeWhile_sublist (l := rest) isWordPart).length_le
      split
      · simp only [length?, Option.map_some, Option.getD_some, List.length_cons]
        omega
      · exact Nat.zero_le _
  cut taken rest more nl lineEnd fits := by
    cases taken with
    | nil =>
        have none := eq_none_of_length? fits fun k m h => by
          unfold word? at h
          split at h
          · cases h
          · split at h <;> cases h
            exact Nat.lt_of_lt_of_le (by decide) (Nat.le_add_right 1 _)
        rw [none, List.nil_append, word?,
          if_neg (by rw [stops_of (p := isWordStart) (by decide) (by decide) lineEnd]; decide)]
    | cons c taken =>
        simp only [List.cons_append, word?] at fits ⊢
        split at fits
        · next start =>
          have within : ((taken ++ rest).takeWhile isWordPart).length ≤ taken.length := by
            simp only [length?, Option.map_some, Option.getD_some, List.length_cons] at fits
            omega
          rw [if_pos start, if_pos start,
            takeWhile_cut (stops_of (p := isWordPart) (by decide) (by decide)) lineEnd within]
        · next no => rw [if_neg no, if_neg no]

/-- What does not hold a line end begins a text that is cut only if it begins the whole one. -/
theorem prefix_cut {word : List Char} (plain : nl ∉ word) :
    word <+: taken ++ nl :: more ↔ word <+: taken := by
  refine ⟨fun h => ?_, fun h => h.trans (List.prefix_append _ _)⟩
  by_cases short : word.length ≤ taken.length
  · exact List.prefix_of_prefix_length_le h (List.prefix_append _ _) short
  · have through : taken ++ [nl] <+: word :=
      List.prefix_of_prefix_length_le ⟨more, by simp⟩ h (by simp; omega)
    exact absurd (through.subset (by simp)) plain

theorem find?_cut : ∀ {ks : List Kind}, (∀ k ∈ ks, nl ∉ spelling k) →
    (∀ k ∈ ks.find? fun k => (spelling k).isPrefixOf (taken ++ rest),
      (spelling k).length ≤ taken.length) →
    ks.find? (fun k => (spelling k).isPrefixOf (taken ++ nl :: more)) =
      ks.find? fun k => (spelling k).isPrefixOf (taken ++ rest)
  | [], _, _ => rfl
  | k :: ks, plain, fits => by
      have cut : (spelling k).isPrefixOf (taken ++ nl :: more) = true ↔ spelling k <+: taken :=
        List.isPrefixOf_iff_prefix.trans (prefix_cut (plain k List.mem_cons_self))
      rw [List.find?_cons] at fits ⊢
      rw [List.find?_cons]
      cases whole : (spelling k).isPrefixOf (taken ++ rest) with
      | true =>
          rw [whole] at fits
          have within := List.prefix_of_prefix_length_le (List.isPrefixOf_iff_prefix.mp whole)
            (List.prefix_append taken rest) (fits k rfl)
          rw [cut.mpr within]
      | false =>
          rw [whole] at fits
          have no : (spelling k).isPrefixOf (taken ++ nl :: more) = false := by
            refine Bool.eq_false_iff.mpr fun yes => ?_
            have longer := (cut.mp yes).trans (List.prefix_append taken rest)
            rw [List.isPrefixOf_iff_prefix.mpr longer] at whole
            cases whole
          rw [no]
          exact find?_cut (fun k mem => plain k (List.mem_cons_of_mem _ mem)) fits

theorem delimited_operator? : Delimited length? operator? where
  le cs := by
    rw [operator?]
    cases found : Kind.operators.find? fun k => (spelling k).isPrefixOf cs with
    | none => exact Nat.zero_le _
    | some k =>
        have here := List.find?_some found
        exact (List.isPrefixOf_iff_prefix.mp here).length_le
  cut taken rest more nl lineEnd fits := by
    have plain : ∀ k ∈ Kind.operators, nl ∉ spelling k := by
      have all : ∀ k ∈ Kind.operators, (spelling k).all (!isLineEnd ·) = true := by decide
      intro k mem inside
      have other := List.all_eq_true.mp (all k mem) nl inside
      rw [lineEnd] at other
      cases other
    rw [operator?, operator?, find?_cut plain]
    intro k found
    rw [operator?, Option.mem_def.mp found] at fits
    exact fits

theorem Delimited.or {f g : List Char → Option (Kind × Nat)} (hf : Delimited length? f)
    (hg : Delimited length? g) : Delimited length? fun cs => f cs <|> g cs where
  le cs := by
    rw [Option.orElse_eq_orElse, Option.orElse_eq_or]
    cases first : f cs with
    | some x =>
        rw [Option.some_or, ← first]
        exact hf.le cs
    | none => exact hg.le cs
  cut taken rest more nl lineEnd fits := by
    simp only [Option.orElse_eq_orElse, Option.orElse_eq_or] at fits ⊢
    cases first : f (taken ++ rest) with
    | some x =>
        rw [first, Option.some_or] at fits
        rw [hf.cut _ _ _ lineEnd (first ▸ fits), first, Option.some_or, Option.some_or]
    | none =>
        rw [first, Option.none_or] at fits
        have within : length? (f (taken ++ rest)) ≤ taken.length := by
          rw [first]
          exact Nat.zero_le _
        rw [hf.cut _ _ _ lineEnd within, first, Option.none_or, Option.none_or,
          hg.cut _ _ _ lineEnd fits]

/-- The lexeme that stands first, where the text begins with one. -/
def first? (afterOperand : Bool) (cs : List Char) : Option (Kind × Nat) :=
  comment? cs <|> openingQuote? cs <|> numeral? afterOperand cs <|> word? cs <|> operator? cs

theorem leading_eq (afterOperand : Bool) (cs : List Char) :
    leading afterOperand cs = (first? afterOperand cs).getD (.error, 1) := rfl

theorem delimited_first? (afterOperand : Bool) : Delimited length? (first? afterOperand) :=
  delimited_comment?.or (delimited_openingQuote?.or ((delimited_numeral? afterOperand).or
    (delimited_word?.or delimited_operator?)))

theorem leading_le (afterOperand : Bool) {cs : List Char} (some : cs ≠ []) :
    (leading afterOperand cs).2 ≤ cs.length := by
  have le := (delimited_first? afterOperand).le cs
  rw [leading_eq]
  cases found : first? afterOperand cs with
  | none => exact List.length_pos_iff.mpr some
  | some x =>
      rw [found] at le
      exact le

/-- Whatever stands first in a text still does if the text is cut behind it. -/
theorem leading_cut {afterOperand : Bool} (lineEnd : isLineEnd nl = true)
    (fits : (leading afterOperand (taken ++ rest)).2 ≤ taken.length) :
    leading afterOperand (taken ++ nl :: more) = leading afterOperand (taken ++ rest) := by
  have within : length? (first? afterOperand (taken ++ rest)) ≤ taken.length := by
    rw [leading_eq] at fits
    cases found : first? afterOperand (taken ++ rest) with
    | none => exact Nat.zero_le _
    | some x =>
        rw [found] at fits
        exact fits
  rw [leading_eq, leading_eq, (delimited_first? afterOperand).cut _ _ _ lineEnd within]

/-! ## Inside strings and comments -/

theorem exists_of_append_eq (first : List Char) {inside after cs : List Char}
    (same : inside ++ after = first ++ cs) (le : first.length ≤ inside.length) :
    ∃ i, inside = first ++ i ∧ i ++ after = cs := by
  obtain ⟨i, rfl⟩ := List.prefix_of_prefix_length_le ⟨cs, same.symm⟩ ⟨after, rfl⟩ le
  rw [List.append_assoc] at same
  exact ⟨i, rfl, List.append_cancel_left same⟩

theorem stringContent_cons {quote c : Char} (slash : c ≠ '\\') (cs : List Char) :
    stringContent quote (c :: cs) =
      if c = quote ∨ isLineEnd c then 0 else 1 + stringContent quote cs := by
  rw [stringContent]
  · intro _ h
    exact absurd h slash
  · intro _ _ h
    exact absurd h slash

theorem stringContent_eq_zero {quote c : Char} (slash : quote ≠ '\\')
    (stop : c = quote ∨ isLineEnd c = true) (cs : List Char) :
    stringContent quote (c :: cs) = 0 := by
  have plain : c ≠ '\\' := by
    rcases stop with rfl | lineEnd
    · exact slash
    · exact lineEnd_ne lineEnd (by decide)
  rw [stringContent_cons plain, if_pos stop]

theorem stringContent_pos {quote c : Char} (go : ¬(c = quote ∨ isLineEnd c = true))
    (cs : List Char) : 0 < stringContent quote (c :: cs) := by
  unfold stringContent
  split
  · next h => cases h
  · omega
  · omega
  · next h =>
    cases h
    rw [if_neg go]
    omega

/-- The inside of a string reaches as far whatever comes after the character that ends it. -/
theorem stringContent_cut {quote c : Char} (slash : c ≠ '\\') {inside : List Char}
    (ends : stringContent quote (inside ++ c :: rest) = inside.length) :
    stringContent quote (inside ++ c :: more) = inside.length := by
  generalize whole : inside ++ c :: rest = cs at ends
  fun_induction stringContent quote cs generalizing inside with
  | case1 => simp at whole
  | case2 cs ih =>
      obtain ⟨i, rfl, behind⟩ :=
        exists_of_append_eq ['\\', '\r', '\n'] whole (by simp; omega)
      have shorter := ih behind (by simp at ends; omega)
      simp only [List.cons_append, List.nil_append, List.length_cons, stringContent, shorter]
      omega
  | case3 d cs single ih =>
      obtain ⟨i, rfl, behind⟩ := exists_of_append_eq ['\\', d] whole (by simp; omega)
      have shorter := ih behind (by simp at ends; omega)
      simp only [List.cons_append, List.nil_append, List.length_cons]
      rw [stringContent, shorter]
      · omega
      -- A backslash takes a carriage return and the line feed behind it, but they do not meet here
      -- if they did not before.
      · intro ds cr feed
        cases i with
        | nil =>
            cases feed
            exact single rest cr behind.symm
        | cons e i =>
            cases feed
            exact single _ cr behind.symm
  | case4 d cs _ _ stop =>
      obtain rfl := List.eq_nil_of_length_eq_zero ends.symm
      cases whole
      rw [List.nil_append, stringContent_cons slash, if_pos stop]
      rfl
  | case5 d cs _ escape stop ih =>
      obtain ⟨i, rfl, behind⟩ := exists_of_append_eq [d] whole (by simp; omega)
      have plain : d ≠ '\\' := fun h => by
        cases i with
        | nil => exact escape c rest h behind.symm
        | cons e i => exact escape e _ h behind.symm
      have shorter := ih behind (by simp at ends; omega)
      rw [List.singleton_append, List.cons_append, stringContent_cons plain, if_neg stop, shorter,
        List.length_cons, Nat.add_comm]

/-- Behind the inside of a string nothing of it is left. -/
theorem stringContent_drop (quote : Char) (cs : List Char) :
    stringContent quote (cs.drop (stringContent quote cs)) = 0 := by
  fun_induction stringContent quote cs with
  | case1 => rfl
  | case2 cs ih => rwa [Nat.add_comm, List.drop_succ_cons, List.drop_succ_cons, List.drop_succ_cons]
  | case3 d cs single ih => rwa [Nat.add_comm, List.drop_succ_cons, List.drop_succ_cons]
  | case4 d cs single escape stop =>
      rw [List.drop_zero, stringContent, if_pos stop]
      · exact single
      · exact escape
  | case5 d cs single escape stop ih => rwa [Nat.add_comm, List.drop_succ_cons]

/-- The inside of a comment reaches as far whatever comes after its closing. -/
theorem commentContent_cut : ∀ {inside : List Char},
    commentContent (inside ++ '*' :: '/' :: rest) = inside.length →
      commentContent (inside ++ '*' :: '/' :: more) = inside.length
  | [], _ => rfl
  | c :: inside, ends => by
      have next : (inside ++ '*' :: '/' :: more).head? = (inside ++ '*' :: '/' :: rest).head? := by
        cases inside <;> rfl
      rw [List.cons_append, commentContent] at ends ⊢
      rw [next]
      split at ends
      · cases ends
      · next no =>
        rw [if_neg no, commentContent_cut, List.length_cons, Nat.add_comm]
        rw [List.length_cons] at ends
        omega

theorem commentContent_drop (cs : List Char) :
    commentContent (cs.drop (commentContent cs)) = 0 := by
  fun_induction commentContent cs with
  | case1 => rfl
  | case2 c cs stop => rw [List.drop_zero, commentContent, if_pos stop]
  | case3 c cs go ih => rwa [Nat.add_comm, List.drop_succ_cons]

end Lexeme

end JassSyntax
