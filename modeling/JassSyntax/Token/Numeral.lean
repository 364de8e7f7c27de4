import JassSyntax.Token.Kind

/-!
# Numerals

How far a numeral reaches. Digits stand in runs joined by single underscores. An integer is such
runs of decimal digits, or of hexadecimal ones after `0x`, or of binary ones after `0b`, and may end
in `u`, `l` or `ul`. A float has an exponent, or a fraction, or at least the mark `f`. All letters
may be of either case.

Every function here answers with a number of characters, which is zero where nothing matches.
-/

namespace JassSyntax.Numeral

/-- The rest of digit runs of which a digit has been read. -/
def runsTail (digit : Char → Bool) : List Char → Nat
  | [] => 0
  | c :: cs =>
    if digit c then 1 + runsTail digit cs
    else if c = '_' then
      match cs with
      | d :: ds => if digit d then 2 + runsTail digit ds else 0
      | [] => 0
    else 0

/-- Runs of digits joined by single underscores. -/
def runs (digit : Char → Bool) : List Char → Nat
  | [] => 0
  | c :: cs => if digit c then 1 + runsTail digit cs else 0

def isHexDigit (c : Char) : Bool :=
  c.isDigit || ('a' ≤ c && c ≤ 'f') || ('A' ≤ c && c ≤ 'F')

def isBinaryDigit (c : Char) : Bool := c = '0' || c = '1'

/-- One character out of `cs`, if the text begins with one. -/
def oneOf (cs : List Char) : List Char → Nat
  | c :: _ => if cs.contains c then 1 else 0
  | [] => 0

/-- `u`, `l` or `ul`. -/
def integerSuffix (cs : List Char) : Nat :=
  match oneOf ['u', 'U'] cs with
  | 0 => oneOf ['l', 'L'] cs
  | n => n + oneOf ['l', 'L'] (cs.drop n)

/-- Digits after a mark such as `0x`, the mark included. -/
def marked (marks : List Char) (digit : Char → Bool) : List Char → Nat
  | '0' :: m :: cs =>
    if marks.contains m then
      match runs digit cs with
      | 0 => 0
      | n => 2 + n
    else 0
  | _ => 0

/-- The digits of an integer in the first base that fits. -/
def integerBody (cs : List Char) : Nat :=
  match marked ['x', 'X'] isHexDigit cs with
  | 0 =>
    match marked ['b', 'B'] isBinaryDigit cs with
    | 0 => runs Char.isDigit cs
    | n => n
  | n => n

/-- An integer numeral. -/
def integer (cs : List Char) : Nat :=
  match integerBody cs with
  | 0 => 0
  | n => n + integerSuffix (cs.drop n)

/-- `e`, a sign if there is one, and decimal digits without underscores. -/
def exponent (cs : List Char) : Nat :=
  match oneOf ['e', 'E'] cs with
  | 0 => 0
  | n =>
    let m := n + oneOf ['+', '-'] (cs.drop n)
    match ((cs.drop m).takeWhile Char.isDigit).length with
    | 0 => 0
    | k => m + k

/-- A point and runs of digits. -/
def fraction : List Char → Nat
  | '.' :: cs =>
    match runs Char.isDigit cs with
    | 0 => 0
    | n => 1 + n
  | _ => 0

/-- The mark of a float. -/
def floatSuffix : List Char → Nat := oneOf ['f', 'F']

/-- A float numeral. Only one with a fraction may lack digits before it. -/
def float (cs : List Char) : Nat :=
  let whole := runs Char.isDigit cs
  let fromWhole := whole + fraction (cs.drop whole)
  let toExponent := fromWhole + exponent (cs.drop fromWhole)
  let marked := toExponent + floatSuffix (cs.drop toExponent)
  if fromWhole = 0 ∨ marked = whole then 0 else marked

/-- The numeral that the text begins with: its kind and its length. What reads equally far both as a
float and as an integer is a float. -/
def leading? (cs : List Char) : Option (Kind × Nat) :=
  if 0 < float cs ∧ integer cs ≤ float cs then some (.float, float cs)
  else if 0 < integer cs then some (.number, integer cs)
  else none

theorem leading?_pos {cs : List Char} {k : Kind} {n : Nat} (h : leading? cs = some (k, n)) :
    0 < n := by
  unfold leading? at h
  split at h
  · cases h; omega
  · split at h
    · cases h; assumption
    · cases h

end JassSyntax.Numeral
