import JassSyntax.Json.Reader
import JassSyntax.Json.Value
import Mathlib.Tactic.Common

/-!
# Printed strings and numbers are read back

The printer and the reader of JSON are two programs that share no definition. They meet in three
places: the sign that a character of a string is escaped to, the decimal digits of a number, and the
blanks between the parts. Every lemma here is about a part of a printed text with any text behind
it, since a reader takes its part from the front and leaves the rest.
-/

namespace JassSyntax.Json

/-! ## Taking a part from the front -/

namespace Reader

section

variable {α β : Type}

theorem bind_apply (r : Reader α) (f : α → Reader β) (cs : List Char) :
    (r >>= f) cs = (r cs).bind fun (a, rest) => f a rest := rfl

theorem pure_apply (a : α) (cs : List Char) : (pure a : Reader α) cs = .ok (a, cs) := rfl

theorem get_apply (cs : List Char) : (get : Reader (List Char)) cs = .ok (cs, cs) := rfl

theorem set_apply (cs before : List Char) : (set cs : Reader PUnit) before = .ok ((), cs) := rfl

theorem skip_cons (c : Char) (rest : List Char) : skip (c :: rest) = .ok ((), rest) := rfl

/-- What is read after a part is read from the text behind that part. -/
theorem bind_ok {r : Reader α} {a : α} {cs rest : List Char} (h : r cs = .ok (a, rest))
    (f : α → Reader β) : (r >>= f) cs = f a rest := by
  rw [bind_apply, h]
  rfl

theorem peek_cons {c : Char} (solid : isBlank c = false) (rest : List Char) :
    peek (c :: rest) = .ok (some c, c :: rest) := by
  have kept : (c :: rest).dropWhile isBlank = c :: rest := by simp [solid]
  change Except.ok (((c :: rest).dropWhile isBlank).head?, (c :: rest).dropWhile isBlank) = _
  rw [kept, List.head?_cons]

theorem isBlank_of_isDigit {c : Char} (h : c.isDigit = true) : isBlank c = false := by
  have : c ≠ ' ' ∧ c ≠ '\n' ∧ c ≠ '\t' ∧ c ≠ '\r' := by
    refine ⟨?_, ?_, ?_, ?_⟩ <;> rintro rfl <;> contradiction
  simp [isBlank, this]

/-- A look ahead passes over blanks. -/
theorem peek_blanks {blanks : List Char} (blank : ∀ c ∈ blanks, isBlank c = true)
    (cs : List Char) : peek (blanks ++ cs) = peek cs := by
  have dropped : (blanks ++ cs).dropWhile isBlank = cs.dropWhile isBlank :=
    List.dropWhile_append_of_pos blank
  change Except.ok (((blanks ++ cs).dropWhile isBlank).head?, (blanks ++ cs).dropWhile isBlank)
    = Except.ok ((cs.dropWhile isBlank).head?, cs.dropWhile isBlank)
  rw [dropped]

end

end Reader

open Reader

theorem isBlank_of_mem_newLine {level : Nat} {c : Char} (h : c ∈ (newLine level).toList) :
    isBlank c = true := by
  simp only [newLine, String.toList_append, String.toList_ofList, List.mem_append,
    List.mem_replicate] at h
  rcases h with h | ⟨_, rfl⟩
  · have : c = '\n' := by simpa using h
    subst this
    decide
  · decide

/-- A look ahead passes over a line break with its indentation. -/
theorem peek_newLine (level : Nat) (cs : List Char) :
    peek ((newLine level).toList ++ cs) = peek cs :=
  peek_blanks (fun _ => isBlank_of_mem_newLine) cs

/-! ## Strings -/

theorem hexValue?_digitChar : ∀ {d : Nat}, d < 16 → hexValue? d.digitChar = some d := by decide

theorem escapeByNumber_of_lt {c : Char} (h : c.toNat < 0x20) :
    escapeByNumber c =
      ['\\', 'u', '0', '0', (c.toNat / 16).digitChar, (c.toNat % 16).digitChar] := by
  rcases Nat.lt_or_ge c.toNat 16 with small | large
  · simp [escapeByNumber, Nat.toDigits_of_lt_base small, Nat.div_eq_of_lt small,
      Nat.mod_eq_of_lt small]
  · have high : c.toNat / 16 < 16 := by omega
    simp [escapeByNumber, Nat.toDigits_of_base_le (by decide) large, Nat.toDigits_of_lt_base high]

/-- The four digits of a control character stand for it, as it is no surrogate. -/
theorem numberedCharacter_of_lt {c : Char} (h : c.toNat < 0x20) (rest : List Char) :
    numberedCharacter false
      ('0' :: '0' :: (c.toNat / 16).digitChar :: (c.toNat % 16).digitChar :: rest)
      = .ok (c, rest) := by
  have zero : hexValue? '0' = some 0 := by decide
  have high : hexValue? (c.toNat / 16).digitChar = some (c.toNat / 16) :=
    hexValue?_digitChar (by omega)
  have low : hexValue? (c.toNat % 16).digitChar = some (c.toNat % 16) :=
    hexValue?_digitChar (by omega)
  have value : ((0 * 16 + 0) * 16 + c.toNat / 16) * 16 + c.toNat % 16 = c.toNat := by omega
  have notLow : ¬ (0xdc00 ≤ c.toNat ∧ c.toNat ≤ 0xdfff) := by omega
  have notHigh : ¬ (0xd800 ≤ c.toNat ∧ c.toNat ≤ 0xdbff) := by omega
  simp only [numberedCharacter, fourHexDigits, zero, high, low, value, bind, Except.bind, notLow,
    notHigh, if_false, Bool.false_eq_true, pure, Except.pure, Char.ofNat_toNat]

section

variable {seen : String} {c : Char} {cs rest : List Char}

theorem stringTail_backslash (h : escaped false cs = .ok (c, rest)) :
    stringTail false seen ('\\' :: cs) = stringTail false (seen.push c) rest := by
  rw [stringTail]
  split
  next e => rw [h] at e; cases e; rfl
  next e => rw [h] at e; cases e

theorem stringTail_plain (quote : c ≠ '"') (backslash : c ≠ '\\') (control : ¬ c.toNat < 0x20) :
    stringTail false seen (c :: rest) = stringTail false (seen.push c) rest := by
  rw [stringTail]
  · rw [if_neg control]
  · exact quote
  · exact backslash

end

/-- What a character is escaped to is read as that character. -/
theorem stringTail_escape (seen : String) (c : Char) (rest : List Char) :
    stringTail false seen (escape c ++ rest) = stringTail false (seen.push c) rest := by
  unfold escape
  split
  case h_8 quote backslash _ _ _ _ _ =>
    split
    next control =>
      rw [escapeByNumber_of_lt control]
      exact stringTail_backslash (by simpa [escaped] using numberedCharacter_of_lt control rest)
    next control => exact stringTail_plain quote backslash control
  -- the seven characters that have a letter or sign of their own
  all_goals exact stringTail_backslash rfl

theorem stringTail_flatMap_escape (cs rest : List Char) (seen : String) :
    stringTail false seen (cs.flatMap escape ++ '"' :: rest)
      = .ok (seen ++ String.ofList cs, rest) := by
  induction cs generalizing seen with
  | nil =>
    rw [List.flatMap_nil, List.nil_append, stringTail, String.ofList_nil, String.append_empty]
  | cons c cs ih =>
    have pushed : seen.push c ++ String.ofList cs = seen ++ String.ofList (c :: cs) :=
      String.toList_injective (by simp)
    rw [List.flatMap_cons, List.append_assoc, stringTail_escape, ih, pushed]

theorem toList_quote (s : String) :
    (quote s).toList = '"' :: (s.toList.flatMap escape ++ ['"']) := by
  rw [quote, String.toList_ofList]
  rfl

/-- **A printed string is read back**, whatever characters it has. -/
theorem string_quote (s : String) (rest : List Char) :
    Reader.string false ((quote s).toList ++ rest) = .ok (s, rest) := by
  rw [toList_quote, List.cons_append, Reader.string, bind_ok (skip_cons _ _), List.append_assoc,
    List.singleton_append, stringTail_flatMap_escape, String.empty_append, String.ofList_toList]

/-! ## Numbers -/

theorem le_ofDigitChars (ds : List Char) (value : Nat) : value ≤ Nat.ofDigitChars 10 ds value := by
  induction ds generalizing value with
  | nil => exact Nat.le_refl _
  | cons d ds ih =>
    have := ih (10 * value + (d.toNat - '0'.toNat))
    simp only [Nat.ofDigitChars, List.foldl_cons] at this ⊢
    omega

/-- Digits are added to their end if the number that they make stays in range: it only grows, so
that it was in range at every digit before. -/
theorem addDigits_append {limit : Nat} {rest : List Char} (stop : digitNext rest = false)
    (ds : List Char) (value count : Nat) (digits : ∀ d ∈ ds, d.isDigit = true)
    (inRange : Nat.ofDigitChars 10 ds value ≤ limit) :
    addDigits limit value count (ds ++ rest)
      = (Nat.ofDigitChars 10 ds value, count + ds.length, rest) := by
  induction ds generalizing value count with
  | nil =>
    cases rest with
    | nil => rfl
    | cons c cs =>
      have stop : c.isDigit = false := stop
      simp [addDigits, stop, Nat.ofDigitChars]
  | cons d ds ih =>
    have next : Nat.ofDigitChars 10 (d :: ds) value
        = Nat.ofDigitChars 10 ds (value * 10 + (d.toNat - '0'.toNat)) := by
      simp [Nat.ofDigitChars, Nat.mul_comm]
    rw [next] at inRange ⊢
    have soFar := Nat.le_trans (le_ofDigitChars ds _) inRange
    rw [List.cons_append, addDigits, if_pos ⟨digits d (by simp), soFar⟩,
      ih _ _ (fun d hd => digits d (by simp [hd])) inRange, List.length_cons, Nat.add_assoc,
      Nat.add_comm 1]

/-- The digits of a number above zero do not begin with a zero. -/
theorem exists_toDigits_eq_cons {n : Nat} (positive : 0 < n) :
    ∃ d ds, Nat.toDigits 10 n = d :: ds ∧ d ≠ '0' := by
  induction n using Nat.strongRecOn with
  | ind n ih =>
    rcases Nat.lt_or_ge n 10 with small | large
    · refine ⟨n.digitChar, [], Nat.toDigits_of_lt_base small, ?_⟩
      have : ∀ d < 10, 0 < d → d.digitChar ≠ '0' := by decide
      exact this n small positive
    · obtain ⟨d, ds, eq, nonzero⟩ := ih (n / 10) (by omega) (by omega)
      refine ⟨d, ds ++ [(n % 10).digitChar], ?_, nonzero⟩
      rw [Nat.toDigits_of_base_le (by decide) large, eq, List.cons_append]

/-- A printed number begins with a digit. -/
theorem exists_toString_eq_cons (n : Nat) :
    ∃ d ds, (toString n).toList = d :: ds ∧ d.isDigit = true := by
  rw [Nat.toString_eq_ofList_toDigits, String.toList_ofList]
  obtain ⟨d, ds, eq⟩ := List.exists_cons_of_ne_nil (Nat.toDigits_ne_nil (n := n) (b := 10))
  have mem : d ∈ Nat.toDigits 10 n := by simp [eq]
  exact ⟨d, ds, eq, Nat.isDigit_of_mem_toDigits (by decide) (by decide) mem⟩

/-- A number ends before the text: no digit follows, no point and no mark of an exponent. -/
structure NumberEnds (rest : List Char) : Prop where
  digit : digitNext rest = false
  point : rest.head? ≠ some '.'
  exponent : exponentNext rest = false

theorem NumberEnds.cons {c : Char} (digit : c.isDigit = false) (point : c ≠ '.')
    (exponent : (c = 'e' || c = 'E') = false) (rest : List Char) : NumberEnds (c :: rest) where
  digit := digit
  point := by simpa using point
  exponent := exponent

/-- Nothing of the rest is taken for a digit. -/
theorem NumberEnds.takeWhile_isDigit {rest : List Char} (h : NumberEnds rest) :
    rest.takeWhile Char.isDigit = [] := by
  cases rest with
  | nil => rfl
  | cons c cs => exact List.takeWhile_cons_of_neg (by simpa [digitNext] using h.digit)

theorem NumberEnds.dropWhile_isDigit {rest : List Char} (h : NumberEnds rest) :
    rest.dropWhile Char.isDigit = rest := by
  cases rest with
  | nil => rfl
  | cons c cs => exact List.dropWhile_cons_of_neg (by simpa [digitNext] using h.digit)

/-- **A printed number is read back** if it fits sixty-four bits and ends before the rest. -/
theorem number_toString {n : Nat} (inRange : n ≤ largestNatural) {rest : List Char}
    (ends : NumberEnds rest) :
    Reader.number false false ((toString n).toList ++ rest) = .ok (.natural n, rest) := by
  rw [Nat.toString_eq_ofList_toDigits, String.toList_ofList]
  rcases Nat.eq_zero_or_pos n with rfl | positive
  · -- a zero is passed over, and no digit follows it
    have zero : ('0' : Char).isDigit = true := by decide
    have added : addDigits largestNatural 0 0 rest = (0, 0, rest) := by
      simpa [Nat.ofDigitChars] using addDigits_append ends.digit [] 0 0 (by simp) inRange
    simp only [Nat.toDigits_zero, List.singleton_append, Reader.number, bind_apply, get_apply,
      Except.bind, List.head?_cons, zero, Bool.not_true, Bool.false_eq_true, if_false, if_true,
      skip_cons, ends.digit, added, ends.takeWhile_isDigit, ends.dropWhile_isDigit, set_apply,
      ends.point, ends.exponent, List.isEmpty_nil, Bool.not_false, pure_apply]
  · obtain ⟨d, ds, eq, nonzero⟩ := exists_toDigits_eq_cons positive
    have digits : ∀ c ∈ d :: ds, c.isDigit = true := fun c hc =>
      Nat.isDigit_of_mem_toDigits (by decide) (by decide) (eq ▸ hc)
    have value : Nat.ofDigitChars 10 (d :: ds) 0 = n := by rw [← eq, Nat.ofDigitChars_ten_toDigits]
    have added := addDigits_append ends.digit (d :: ds) 0 0 digits (value.symm ▸ inRange)
    rw [List.cons_append, value] at added
    simp only [eq, List.cons_append, Reader.number, bind_apply, get_apply, Except.bind,
      List.head?_cons, digits d List.mem_cons_self, Bool.not_true, Bool.false_eq_true, if_false,
      nonzero, added, ends.takeWhile_isDigit, ends.dropWhile_isDigit, set_apply, ends.point,
      ends.exponent, List.isEmpty_nil, Bool.not_false, if_true, pure_apply]

/-! ## Between the parts -/

/-- The parts of an array or object after the first one, each behind its comma. -/
def further (level : Nat) (parts : List String) : List Char :=
  parts.flatMap fun part => ',' :: ((newLine level).toList ++ part.toList)

theorem further_cons (level : Nat) (part : String) (parts : List String) :
    further level (part :: parts)
      = ',' :: ((newLine level).toList ++ (part.toList ++ further level parts)) := by
  simp [further]

theorem toList_intercalate_further (level : Nat) (part : String) (parts : List String) :
    (("," ++ newLine level).intercalate (part :: parts)).toList
      = part.toList ++ further level parts := by
  induction parts generalizing part with
  | nil => simp [further]
  | cons next parts ih =>
    rw [String.intercalate_cons_cons, String.toList_append, String.toList_append, ih, further_cons]
    simp

/-- An array or object that is not empty, part by part. -/
theorem toList_bracketed (opening closing : String) (level : Nat) (part : String)
    (parts : List String) :
    (bracketed opening closing level (part :: parts)).toList
      = opening.toList ++ ((newLine (level + 1)).toList ++ (part.toList
        ++ (further (level + 1) parts ++ ((newLine level).toList ++ closing.toList)))) := by
  simp only [bracketed, List.isEmpty_cons, Bool.false_eq_true, if_false, String.toList_append,
    toList_intercalate_further, List.append_assoc]

section

variable (level : Nat) (rest : List Char)

theorem colon_cons : colon (':' :: rest) = .ok ((), rest) := by
  rw [colon, bind_ok (peek_cons (by decide) rest)]
  rfl

/-- A look ahead to a printed string. -/
theorem peek_quote (s : String) (cs : List Char) :
    peek ((quote s).toList ++ cs) = .ok (some '"', (quote s).toList ++ cs) := by
  rw [toList_quote, List.cons_append]
  exact peek_cons (by decide) _

theorem anotherMember_first (key : String) :
    anotherMember true ((newLine level).toList ++ ((quote key).toList ++ rest))
      = .ok (true, (quote key).toList ++ rest) := by
  rw [anotherMember, bind_ok ((peek_newLine level _).trans (peek_quote key rest))]
  rfl

theorem anotherMember_next (key : String) :
    anotherMember false (',' :: ((newLine level).toList ++ ((quote key).toList ++ rest)))
      = .ok (true, (quote key).toList ++ rest) := by
  have comma {cs : List Char} : peek (',' :: cs) = .ok (some ',', ',' :: cs) :=
    peek_cons (by decide) cs
  have next := (peek_newLine level _).trans (peek_quote key rest)
  simp [anotherMember, bind_ok comma, bind_ok (skip_cons _ _), bind_ok next, pure_apply]

theorem anotherMember_end :
    anotherMember false ((newLine level).toList ++ '\x7d' :: rest)
      = .ok (false, '\x7d' :: rest) := by
  rw [anotherMember, bind_ok ((peek_newLine level _).trans (peek_cons (by decide) rest))]
  rfl

theorem objectEnd_cons : objectEnd ('\x7d' :: rest) = .ok ((), rest) := by
  rw [objectEnd, bind_ok (peek_cons (by decide) rest)]
  rfl

theorem anotherItem_first (s : String) :
    anotherItem true ((newLine level).toList ++ ((quote s).toList ++ rest))
      = .ok (true, (quote s).toList ++ rest) := by
  rw [anotherItem, bind_ok ((peek_newLine level _).trans (peek_quote s rest))]
  rfl

theorem anotherItem_next (s : String) :
    anotherItem false (',' :: ((newLine level).toList ++ ((quote s).toList ++ rest)))
      = .ok (true, (quote s).toList ++ rest) := by
  have comma {cs : List Char} : peek (',' :: cs) = .ok (some ',', ',' :: cs) :=
    peek_cons (by decide) cs
  have next := (peek_newLine level _).trans (peek_quote s rest)
  simp [anotherItem, bind_ok comma, bind_ok (skip_cons _ _), bind_ok next, pure_apply]

theorem anotherItem_end (first : Bool) :
    anotherItem first ((newLine level).toList ++ ']' :: rest) = .ok (false, ']' :: rest) := by
  rw [anotherItem, bind_ok ((peek_newLine level _).trans (peek_cons (by decide) rest))]
  rfl

theorem listEnd_cons : listEnd (']' :: rest) = .ok ((), rest) := by
  rw [listEnd, bind_ok (peek_cons (by decide) rest)]
  rfl

end

end JassSyntax.Json
