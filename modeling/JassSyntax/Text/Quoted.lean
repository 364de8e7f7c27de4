import JassSyntax.Text.Hidden

/-!
# Quoted text

Messages and listings show characters between quotes. A line feed, a tab, a carriage return, a null
character and the backslash have short escapes, the enclosing quote is escaped, and characters
without a glyph of their own are shown by number, so quoted text never breaks a line.
-/

namespace JassSyntax.Text

/-- The character by number: `u` and the hexadecimal code point between braces. -/
def escapeByNumber (c : Char) : List Char :=
  '\\' :: 'u' :: '\x7b' :: Nat.toDigits 16 c.toNat ++ ['\x7d']

/-- The character as it stands between quotes, when all of `quotes` are escaped. -/
def escape (quotes : List Char) (c : Char) : List Char :=
  if c = '\x00' then ['\\', '0']
  else if c = '\t' then ['\\', 't']
  else if c = '\n' then ['\\', 'n']
  else if c = '\r' then ['\\', 'r']
  else if c = '\\' ∨ c ∈ quotes then ['\\', c]
  else if isHidden c then escapeByNumber c
  else [c]

/-- A character between single quotes. -/
def quotedChar (c : Char) : String :=
  String.ofList ('\'' :: escape ['\''] c ++ ['\''])

/-- A text between double quotes. -/
def quoted (s : String) : String :=
  String.ofList ('"' :: s.toList.flatMap (escape ['"']) ++ ['"'])

/-- A path between double quotes. Single quotes are escaped too. -/
def quotedPath (s : String) : String :=
  String.ofList ('"' :: s.toList.flatMap (escape ['"', '\'']) ++ ['"'])

theorem lineFeed_not_mem_toDigitsCore (fuel n : Nat) {acc : List Char} (h : '\n' ∉ acc) :
    '\n' ∉ Nat.toDigitsCore 16 fuel n acc := by
  induction fuel generalizing n acc with
  | zero => exact h
  | succ fuel ih =>
    have h' : '\n' ∉ Nat.digitChar (n % 16) :: acc := by
      simp [h]
    rw [Nat.toDigitsCore]
    split
    · exact h'
    · exact ih _ h'

/-- Quoted text stays on one line. -/
theorem lineFeed_not_mem_escape (quotes : List Char) (c : Char) : '\n' ∉ escape quotes c := by
  have number : '\n' ∉ Nat.toDigits 16 c.toNat :=
    lineFeed_not_mem_toDigitsCore _ _ List.not_mem_nil
  have other : c ≠ '\n' → '\n' ≠ c := Ne.symm
  unfold escape
  repeat' split
  all_goals simp_all [escapeByNumber]

end JassSyntax.Text
