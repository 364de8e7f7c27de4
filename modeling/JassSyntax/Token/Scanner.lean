import JassSyntax.Problem.Basic
import JassSyntax.Text.Blank
import JassSyntax.Token.Lexeme

/-!
# Scanning

A scanner walks over a text and yields its tokens one by one, the end-of-input token last. White
space is passed over. Strings and block comments are yielded in parts, so the scanner remembers
which of them it is inside of. `Scanner.step_lt` says that every token brings the scanner nearer to
its end, which is why `Scanner.run` ends.
-/

namespace JassSyntax

/-- What the scanner is inside of, and where that began. -/
inductive ScanMode where
  | normal
  | inBlockComment (start : Position)
  | inString (quote : Char) (start : Position)
  deriving DecidableEq, Repr, Inhabited

/-- A scanner at one place of a text. -/
structure Scanner where
  /-- The text from here on. -/
  rest : List Char
  here : Position := .origin
  mode : ScanMode := .normal
  /-- The errors met so far, in the order of meeting. -/
  errors : Array ScanError := #[]
  /-- Whether the end-of-input token has been yielded. -/
  finished : Bool := false
  /-- The kind of the last token that is no comment. -/
  previous : Option Kind := none
  deriving Repr, Inhabited

namespace Scanner

/-- A scanner before the first character of `source`. -/
def ofString (source : String) : Scanner where
  rest := source.toList

/-- Whether a point here would select a member of what was just read. -/
def afterOperand (s : Scanner) : Bool :=
  match s.previous with
  | some .identifier | some .rParen | some .rBracket | some .rBrace | some .stringEnd => true
  | _ => false

def enter (s : Scanner) (mode : ScanMode) : Scanner := { s with mode }

def report (s : Scanner) (e : ScanError) : Scanner := { s with errors := s.errors.push e }

def skipBlanks (s : Scanner) : Scanner :=
  { s with
    rest := s.rest.dropWhile Text.isBlank
    here := s.here.afterAll (s.rest.takeWhile Text.isBlank) }

/-- Yields the next `n` characters as one token. -/
def yield (s : Scanner) (kind : Kind) (n : Nat) : Token × Scanner :=
  let text := s.rest.take n
  let stop := s.here.afterAll text
  (⟨kind, String.ofList text, ⟨s.here, stop⟩⟩,
   { s with
     rest := s.rest.drop n
     here := stop
     previous := if kind.isTrivia then s.previous else some kind })

/-- The mode that a token of this kind, begun at `start` with `first`, leads into. -/
def modeAfter (kind : Kind) (first : Char) (start : Position) : ScanMode :=
  match kind with
  | .blockCommentStart => .inBlockComment start
  | .stringStart => .inString first start
  | _ => .normal

/-- The next token outside strings and comments. After the end of input there is none. -/
def stepNormal (s : Scanner) : Option (Token × Scanner) :=
  let s := s.skipBlanks
  match s.rest with
  | [] => if s.finished then none else some ({ s with finished := true }.yield .eof 0)
  | c :: _ =>
    let (kind, n) := Lexeme.leading s.afterOperand s.rest
    let (token, next) := s.yield kind n
    let next := next.enter (modeAfter kind c s.here)
    some (token, if kind = .error then next.report (.unrecognizedCharacter c token.span) else next)

/-- The next part of a block comment that began at `start`. A comment that the text leaves open is
closed at its end. -/
def stepComment (s : Scanner) (start : Position) : Token × Scanner :=
  match s.rest with
  | [] =>
    ((s.report (.unterminatedBlockComment ⟨start, s.here⟩)).enter .normal).yield .blockCommentEnd 0
  | '*' :: '/' :: _ => (s.enter .normal).yield .blockCommentEnd 2
  | _ => s.yield .blockCommentContent (Lexeme.commentContent s.rest)

/-- The span of the line end that `s` stands before. It reaches to the start of the next line. -/
def lineEndSpan (s : Scanner) : Span :=
  let n := if ['\r', '\n'].isPrefixOf s.rest then 2 else 1
  ⟨s.here, ⟨s.here.offset + n, s.here.line + 1, 0⟩⟩

/-- The next part of a string that began with `quote` at `start`. A string that its line or the text
leaves open is closed there. -/
def stepString (s : Scanner) (quote : Char) (start : Position) : Token × Scanner :=
  match s.rest with
  | [] => ((s.report (.unterminatedString ⟨start, s.here⟩)).enter .normal).yield .stringEnd 0
  | c :: _ =>
    if Lexeme.isLineEnd c then
      ((s.report (.unescapedNewline s.lineEndSpan)).enter .normal).yield .stringEnd 0
    else if c = quote then (s.enter .normal).yield .stringEnd 1
    else s.yield .stringContent (Lexeme.stringContent quote s.rest)

/-- The next token and the scanner after it. -/
def step (s : Scanner) : Option (Token × Scanner) :=
  match s.mode with
  | .normal => s.stepNormal
  | .inBlockComment start => some (s.stepComment start)
  | .inString quote start => some (s.stepString quote start)

/-- Bounds the number of tokens to come: a character may begin a token and make another one
necessary to close it, and the end of input is a token too. -/
def budget (s : Scanner) : Nat :=
  2 * s.rest.length + (if s.mode = .normal then 0 else 1) + (if s.finished then 0 else 1)

theorem yield_rest (s : Scanner) (kind : Kind) (n : Nat) :
    (s.yield kind n).2.rest = s.rest.drop n := rfl

theorem stepNormal_lt {s s' : Scanner} {t : Token} (h : s.stepNormal = some (t, s'))
    (mode : s.mode = .normal) : s'.budget < s.budget := by
  have shorter : s.skipBlanks.rest.length ≤ s.rest.length :=
    (List.dropWhile_sublist _).length_le
  unfold stepNormal at h
  dsimp only at h
  split at h
  · split at h
    · cases h
    next unfinished =>
      cases h
      have : s.finished = false := by simpa [skipBlanks] using unfinished
      simp only [skipBlanks] at shorter
      simp [budget, skipBlanks, mode, this]
      omega
  next c rest eq =>
    have pos := Lexeme.leading_pos s.skipBlanks.afterOperand s.skipBlanks.rest
    have len : s.skipBlanks.rest.length = rest.length + 1 := by simp [eq]
    cases h
    have : ∀ r : Scanner, r.rest = s.skipBlanks.rest.drop
        (Lexeme.leading s.skipBlanks.afterOperand s.skipBlanks.rest).2 →
        r.finished = s.finished → r.budget < s.budget := by
      intro r hr hf
      have : r.rest.length < s.rest.length := by rw [hr, List.length_drop]; omega
      simp only [budget, mode, hf]
      split <;> split <;> simp <;> omega
    apply this <;> split <;> rfl

theorem stepComment_lt {s : Scanner} {start : Position} (mode : s.mode = .inBlockComment start) :
    (s.stepComment start).2.budget < s.budget := by
  unfold stepComment
  split
  next eq => simp [budget, yield, enter, report, mode, eq]
  next eq => simp [budget, yield, enter, mode, eq]; omega
  next nonempty notClosing =>
    obtain ⟨c, cs, eq⟩ := List.exists_cons_of_ne_nil nonempty
    have pos : 0 < Lexeme.commentContent s.rest := by
      rw [eq, Lexeme.commentContent]
      split
      next h =>
        obtain ⟨rfl, h⟩ := h
        cases cs with
        | nil => cases h
        | cons d ds => cases h; exact absurd eq (notClosing _)
      · omega
    simp only [budget, yield, mode, eq, List.length_drop, List.length_cons] at *
    simp; omega

theorem stepString_lt {s : Scanner} {quote : Char} {start : Position}
    (mode : s.mode = .inString quote start) : (s.stepString quote start).2.budget < s.budget := by
  unfold stepString
  split
  next eq => simp [budget, yield, enter, report, mode, eq]
  next c cs eq =>
    split
    · simp [budget, yield, enter, report, mode, eq]
    split
    · simp only [budget, yield, enter, mode, eq, List.length_drop, List.length_cons, reduceCtorEq,
        if_true, if_false]
      omega
    next notEnd notQuote =>
      have pos : 0 < Lexeme.stringContent quote s.rest := by
        rw [eq]
        unfold Lexeme.stringContent
        split
        next h => cases h
        next => omega
        next => omega
        next h =>
          cases h
          rw [if_neg (not_or.2 ⟨notQuote, notEnd⟩)]
          omega
      simp only [budget, yield, mode, eq, List.length_drop, List.length_cons] at *
      simp; omega

/-- Every token brings the scanner nearer to its end. -/
theorem step_lt {s s' : Scanner} {t : Token} (h : s.step = some (t, s')) :
    s'.budget < s.budget := by
  unfold step at h
  split at h
  next mode => exact stepNormal_lt h mode
  next mode =>
    have := stepComment_lt mode
    simp only [Option.some.injEq] at h
    rwa [h] at this
  next mode =>
    have := stepString_lt mode
    simp only [Option.some.injEq] at h
    rwa [h] at this

/-- Yields every token to come after those of `seen`. -/
def run (s : Scanner) (seen : Array Token) : Array Token × Scanner :=
  match _h : s.step with
  | none => (seen, s)
  | some (t, s') => s'.run (seen.push t)
  termination_by s.budget
  decreasing_by exact step_lt _h

end Scanner

/-- All tokens of a text, and what is wrong with its characters. -/
def scan (source : String) : List Token × List ScanError :=
  let (tokens, s) := (Scanner.ofString source).run #[]
  (tokens.toList, s.errors.toList)

end JassSyntax
