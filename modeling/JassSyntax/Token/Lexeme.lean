import JassSyntax.Token.Numeral

/-!
# Lexemes

What kind of token a text begins with and how many characters the token has, for text that stands
outside strings and comments; and how far the inside of a string or comment reaches.
-/

namespace JassSyntax.Lexeme

/-- What ends a line comment and cannot stand bare in a string. -/
def isLineEnd (c : Char) : Bool := c = '\n' || c = '\r'

def isQuote (c : Char) : Bool := c = '"' || c = '\''

def isWordStart (c : Char) : Bool := c.isAlpha || c = '_'

def isWordPart (c : Char) : Bool := c.isAlphanum || c = '_'

/-- A keyword or identifier. -/
def word? (cs : List Char) : Option (Kind × Nat) :=
  match cs with
  | [] => none
  | c :: rest =>
    if isWordStart c then
      let tail := rest.takeWhile isWordPart
      some ((Kind.keyword? (String.ofList (c :: tail))).getD .identifier, 1 + tail.length)
    else none

/-- A comment's opening, with all of the comment if it runs to the end of its line. -/
def comment? : List Char → Option (Kind × Nat)
  | '/' :: '/' :: rest => some (.lineComment, 2 + (rest.takeWhile (!isLineEnd ·)).length)
  | '/' :: '*' :: _ => some (.blockCommentStart, 2)
  | _ => none

/-- The opening quote of a string. -/
def openingQuote? : List Char → Option (Kind × Nat)
  | c :: _ => if isQuote c then some (.stringStart, 1) else none
  | [] => none

/-- Whether `cs` can begin a numeral. A point does so only before a digit, and not right after an
operand, where it selects a member. -/
def mayStartNumeral (afterOperand : Bool) : List Char → Bool
  | '.' :: d :: _ => !afterOperand && d.isDigit
  | c :: _ => c.isDigit
  | [] => false

def numeral? (afterOperand : Bool) (cs : List Char) : Option (Kind × Nat) :=
  if mayStartNumeral afterOperand cs then Numeral.leading? cs else none

/-- The characters of an operator. -/
def spelling (k : Kind) : List Char := (k.spelling?.getD "").toList

/-- The first operator in the order of trial that the text begins with. -/
def operator? (cs : List Char) : Option (Kind × Nat) :=
  (Kind.operators.find? fun k => (spelling k).isPrefixOf cs).map fun k => (k, (spelling k).length)

/-- Kind and length of the token that a text begins with, when it has characters and no white space
in front. A character that begins nothing is a token of its own. -/
def leading (afterOperand : Bool) (cs : List Char) : Kind × Nat :=
  (comment? cs <|> openingQuote? cs <|> numeral? afterOperand cs <|> word? cs
    <|> operator? cs).getD (.error, 1)

/-- How far the inside of a block comment reaches: up to its closing or to the end of the text. -/
def commentContent : List Char → Nat
  | [] => 0
  | c :: cs => if c = '*' ∧ cs.head? = some '/' then 0 else 1 + commentContent cs

/-- How far the inside of a string reaches: up to its quote, a line end or the end of the text. A
backslash takes the next character with it, or both characters of a line end of two. -/
def stringContent (quote : Char) : List Char → Nat
  | [] => 0
  | '\\' :: '\r' :: '\n' :: cs => 3 + stringContent quote cs
  | '\\' :: _ :: cs => 2 + stringContent quote cs
  | c :: cs => if c = quote ∨ isLineEnd c then 0 else 1 + stringContent quote cs

theorem leading_pos (afterOperand : Bool) (cs : List Char) : 0 < (leading afterOperand cs).2 := by
  unfold leading
  rcases h : comment? cs <|> openingQuote? cs <|> numeral? afterOperand cs <|> word? cs
    <|> operator? cs with _ | ⟨k, n⟩
  · simp
  · simp only [Option.getD_some]
    simp only [Option.orElse_eq_orElse, Option.orElse_eq_or, Option.or_eq_some_iff] at h
    rcases h with h | ⟨-, h | ⟨-, h | ⟨-, h | ⟨-, h⟩⟩⟩⟩
    · unfold comment? at h
      split at h <;> cases h <;> omega
    · unfold openingQuote? at h
      split at h
      · split at h <;> cases h; decide
      · cases h
    · unfold numeral? at h
      split at h
      · exact Numeral.leading?_pos h
      · cases h
    · unfold word? at h
      split at h
      · cases h
      · split at h
        · cases h; omega
        · cases h
    · unfold operator? at h
      obtain ⟨o, ho, hk⟩ := Option.map_eq_some_iff.1 h
      cases hk
      have mem := List.mem_of_find?_eq_some ho
      have : ∀ o ∈ Kind.operators, 0 < (spelling o).length := by decide
      exact this _ mem

end JassSyntax.Lexeme
