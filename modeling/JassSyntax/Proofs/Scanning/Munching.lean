import JassSyntax.Proofs.Scanning.Moves
import JassSyntax.Proofs.Scanning.Numerals

/-!
# Numerals in a text

The scanner tries to read a numeral where a digit stands, and where a point stands before a digit
unless the point would select a member of what the last token ends. There it always reads one, and
the longest one that there is.
-/

namespace JassSyntax

/-- The last of the tokens that is no comment ends something that has members. -/
def EndsOperand (ts : List Token) : Prop :=
  ∃ t ∈ (ts.filter (!·.isTrivia)).getLast?,
    t.kind ∈ [Kind.identifier, .rParen, .rBracket, .rBrace, .stringEnd]

/-- Behind the tokens, the text goes on as a numeral begins. -/
def StartsNumeral (before : List Token) (ahead : List Char) : Prop :=
  ∃ d rest, d.isDigit = true ∧
    (ahead = d :: rest ∨ ahead = '.' :: d :: rest ∧ ¬ EndsOperand before)

namespace Lexeme

variable {afterOperand : Bool} {cs : List Char}

/-- A numeral begins with a digit, or with a point before a digit that selects no member. -/
theorem mayStartNumeral_iff : mayStartNumeral afterOperand cs = true ↔
    ∃ d rest, d.isDigit = true ∧
      (cs = d :: rest ∨ cs = '.' :: d :: rest ∧ ¬ afterOperand = true) := by
  unfold mayStartNumeral
  split
  · next d rest =>
    rw [Bool.and_eq_true, Bool.not_eq_true']
    constructor
    · rintro ⟨other, digit⟩
      exact ⟨d, rest, digit, .inr ⟨rfl, Bool.eq_false_iff.mp other⟩⟩
    · rintro ⟨_, _, digit, same | ⟨same, other⟩⟩
      · cases same
        exact absurd digit (by decide)
      · cases same
        exact ⟨Bool.eq_false_iff.mpr other, digit⟩
  · next c rest single =>
    constructor
    · intro digit
      exact ⟨c, rest, digit, .inl rfl⟩
    · rintro ⟨d, _, digit, same | ⟨same, -⟩⟩
      · cases same
        exact digit
      · cases same
        exact (single _ _ rfl rfl).elim
  · constructor
    · intro never
      cases never
    · rintro ⟨_, _, _, same | ⟨same, -⟩⟩ <;> cases same

theorem mayStartNumeral_cases (starts : mayStartNumeral afterOperand cs = true) :
    ∃ c rest, cs = c :: rest ∧ (c = '.' ∨ c.isDigit = true) := by
  obtain ⟨d, rest, digit, rfl | ⟨rfl, -⟩⟩ := mayStartNumeral_iff.mp starts
  · exact ⟨d, rest, rfl, .inr digit⟩
  · exact ⟨'.', d :: rest, rfl, .inl rfl⟩

/-- No comment and no string begins like a numeral. -/
theorem leading_of_numeral (starts : mayStartNumeral afterOperand cs = true) {k : Kind} {n : Nat}
    (found : Numeral.leading? cs = some (k, n)) : leading afterOperand cs = (k, n) := by
  obtain ⟨c, rest, rfl, begins⟩ := mayStartNumeral_cases starts
  have other : c ≠ '/' ∧ isQuote c = false := by
    rcases begins with rfl | digit
    · exact ⟨by decide, by decide⟩
    · constructor
      · rintro rfl
        exact absurd digit (by decide)
      · by_contra quote
        rw [Bool.not_eq_false, isQuote, Bool.or_eq_true, decide_eq_true_eq, decide_eq_true_eq] at quote
        rcases quote with rfl | rfl <;> exact absurd digit (by decide)
  have comment : comment? (c :: rest) = none := by
    unfold comment?
    split
    · next same => exact absurd (List.cons.inj same).1 other.1
    · next same => exact absurd (List.cons.inj same).1 other.1
    · rfl
  have quote : openingQuote? (c :: rest) = none := by
    rw [openingQuote?, other.2]
    rfl
  unfold leading
  rw [comment, quote, numeral?, if_pos starts, found]
  rfl

end Lexeme

namespace Scanner

variable {s s' e m : Scanner} {t : Token} {ts us : List Token}

/-! ## One step -/

/-- The scanner remembers the kind of each token that is no comment. -/
theorem step_previous (step : s.step = some (t, s')) :
    s'.previous = if t.kind.isTrivia then s.previous else some t.kind := by
  unfold Scanner.step at step
  split at step
  · unfold stepNormal at step
    dsimp only at step
    split at step
    · split at step
      · cases step
      · cases step
        rfl
    · cases step
      split <;> rfl
  · unfold stepComment at step
    split at step <;> cases step <;> rfl
  · unfold stepString at step
    split at step
    · cases step
      rfl
    · split at step
      · cases step
        rfl
      · split at step <;> cases step <;> rfl

/-- Outside strings and comments, a numeral is yielded wherever one may begin. -/
theorem stepNormal_numeral (mode : s.mode = .normal)
    (starts : Lexeme.mayStartNumeral s.skipBlanks.afterOperand s.skipBlanks.rest = true) :
    ∃ k n s', Numeral.leading? s.skipBlanks.rest = some (k, n) ∧
      s.step = some ((s.skipBlanks.yield k n).1, s') := by
  obtain ⟨⟨k, n⟩, found⟩ := Option.isSome_iff_exists.mp (Numeral.leading?_isSome starts)
  obtain ⟨c, rest, ahead, -⟩ := Lexeme.mayStartNumeral_cases starts
  have leading := Lexeme.leading_of_numeral starts found
  unfold Scanner.step
  rw [mode]
  show ∃ k n s', _ ∧ s.stepNormal = _
  unfold stepNormal
  dsimp only
  split
  · next none =>
    rw [none] at ahead
    cases ahead
  · exact ⟨k, n, _, found, by rw [leading]⟩

/-! ## All steps -/

theorem Steps.trans (first : s.Steps ts m) (second : m.Steps us e) : s.Steps (ts ++ us) e := by
  induction first with
  | refl => exact second
  | cons step _ ih => exact .cons step (ih second)

theorem Steps.at_ {source : String} (steps : s.Steps ts e) (at_ : s.At source) : e.At source := by
  induction steps with
  | refl => exact at_
  | cons step _ ih => exact ih (step_stepped at_ step).yields.at_

theorem Steps.previous (steps : s.Steps ts e) : e.previous =
    (((ts.filter (!·.isTrivia)).getLast?).map Token.kind).or s.previous := by
  induction steps with
  | refl => rfl
  | @cons s m e t ts first rest ih =>
      rw [ih, step_previous first, List.filter_cons, Token.isTrivia]
      cases t.kind.isTrivia with
      | true => rfl
      | false =>
          rw [Bool.not_false, if_pos rfl, List.getLast?_cons]
          cases (ts.filter (!·.isTrivia)).getLast? <;> rfl

theorem Steps.afterOperand {source : String} (steps : (ofString source).Steps ts s) :
    s.afterOperand = true ↔ EndsOperand ts := by
  unfold Scanner.afterOperand EndsOperand
  rw [steps.previous]
  cases (ts.filter (!·.isTrivia)).getLast? with
  | none => simp [ofString]
  | some t =>
      have last : (∃ u ∈ some t,
          u.kind ∈ [Kind.identifier, .rParen, .rBracket, .rBrace, .stringEnd]) ↔
          t.kind ∈ [Kind.identifier, .rParen, .rBracket, .rBrace, .stringEnd] := by simp
      rw [last, Option.map_some, Option.some_or]
      cases t.kind <;> decide

/-- The scanner tries to read a numeral exactly where one may begin. -/
theorem Steps.mayStartNumeral {source : String} (steps : (ofString source).Steps ts s) :
    Lexeme.mayStartNumeral s.skipBlanks.afterOperand s.skipBlanks.rest = true ↔
      StartsNumeral ts s.skipBlanks.rest := by
  have operand : s.skipBlanks.afterOperand = true ↔ EndsOperand ts := steps.afterOperand
  rw [Lexeme.mayStartNumeral_iff, operand, StartsNumeral]

/-- A step after some of the tokens of a text yields the next one. -/
theorem Steps.scan_eq {source : String} (steps : (ofString source).Steps ts s)
    (step : s.step = some (t, s')) : ∃ rest, (scan source).1 = ts ++ t :: rest := by
  obtain ⟨rest, further, -, last⟩ := steps_run s' #[]
  have whole := (steps.trans (.cons step further)).run_eq last #[]
  exact ⟨rest, by rw [scan, whole]; simp⟩

end Scanner

/-! ## Texts -/

/-- **Numerals reach as far as they can.** Wherever a numeral may begin outside strings and comments,
the next token is one. Its text is the longest numeral that stands there, and what trying the two
patterns finds first. It is a float exactly if its text is in the language of floats. -/
theorem scan_munches (source : String) {ts : List Token} {s : Scanner}
    (steps : (Scanner.ofString source).Steps ts s) (outside : s.mode = .normal)
    (starts : StartsNumeral ts s.skipBlanks.rest) :
    ∃ t rest, (scan source).1 = ts ++ t :: rest ∧
      t.span.start.ahead source = s.skipBlanks.rest ∧ t.text ≠ "" ∧
      Longest Numeral.numerals (t.span.start.ahead source) t.text.toList ∧
      (t.kind = .float ∧ t.text.toList ∈ Numeral.floatPattern.language ∨
        t.kind = .number ∧ t.text.toList ∉ Numeral.floatPattern.language) ∧
      Numeral.found? (t.span.start.ahead source) = some (t.kind, t.text.toList.length) := by
  obtain ⟨k, n, s', found, step⟩ :=
    Scanner.stepNormal_numeral outside (steps.mayStartNumeral.mpr starts)
  obtain ⟨rest, split⟩ := steps.scan_eq step
  have at_ := steps.at_ (Scanner.at_ofString source)
  have ahead : s.skipBlanks.here.ahead source = s.skipBlanks.rest := at_.skipBlanks.ahead
  have text := Scanner.toList_text_yield s.skipBlanks k n
  obtain ⟨longest, long, kind⟩ := Numeral.leading?_longest found
  refine ⟨_, rest, split, ahead, ?_, ?_⟩
  · intro empty
    rw [empty] at text
    have pos := Numeral.leading?_pos found
    rw [← text] at long
    exact absurd long (Nat.ne_of_lt pos)
  · rw [text]
    show Longest _ (s.skipBlanks.here.ahead source) _ ∧ _ ∧
      Numeral.found? (s.skipBlanks.here.ahead source) = _
    rw [ahead, ← Numeral.leading?_eq, long]
    exact ⟨longest, kind, found⟩

/-- Behind a minus sign, a point begins a float. The letter of an exponent without digits does not
belong to it. -/
theorem scan_munches_minus : ∃ t rest, (scan "-.5e+f").1 = t :: rest ∧
    ∃ u us, rest = u :: us ∧ u.kind = .float ∧ u.text = ".5" ∧
      Longest Numeral.numerals ['.', '5', 'e', '+', 'f'] u.text.toList := by
  obtain ⟨t, s, step, outside, other, ahead⟩ : ∃ t s,
      (Scanner.ofString "-.5e+f").step = some (t, s) ∧ s.mode = .normal ∧ t.kind = .minus ∧
        s.skipBlanks.rest = ['.', '5', 'e', '+', 'f'] := ⟨_, _, rfl, rfl, rfl, rfl⟩
  have starts : StartsNumeral [t] s.skipBlanks.rest := by
    refine ⟨'5', ['e', '+', 'f'], by decide, .inr ⟨ahead, ?_⟩⟩
    rintro ⟨u, last, mem⟩
    rw [List.filter_singleton, Token.isTrivia, other] at last
    have same : t = u := Option.some.inj last
    rw [← same, other] at mem
    exact absurd mem (by decide)
  obtain ⟨u, us, split, place, -, longest, -, found⟩ :=
    scan_munches "-.5e+f" (.cons step (.refl s)) outside starts
  have two : Numeral.leading? ['.', '5', 'e', '+', 'f'] = some (.float, 2) := by decide
  rw [place, ahead] at longest
  rw [place, ahead, ← Numeral.leading?_eq, two, Option.some.injEq, Prod.mk.injEq] at found
  have text := List.prefix_iff_eq_take.mp longest.begins
  rw [← found.2] at text
  exact ⟨t, u :: us, split, u, us, rfl, found.1.symm, String.toList_inj.mp text, longest⟩

end JassSyntax
