import JassSyntax.Decimal.Shortest
import JassSyntax.Json.Fault
import JassSyntax.Text.Quoted

/-!
# Reader JSON

Parts of a JSON text, read from left to right: a reader takes characters from the front of the text
that is left, or fails with the first fault. Text that is only to be passed over is read with
`discarded` set; it is held to the same grammar, but its numbers have no range and its surrogates
need no partner.
-/

namespace JassSyntax.Json

/-- What takes a part from the front of the text that is left, or fails. -/
abbrev Reader := StateT (List Char) (Except Fault)

namespace Reader

/-! ## Faults -/

/-- Fails at the place reached. -/
def failHere {α : Type} (cause : FaultCause) : Reader α :=
  fun rest => .error ⟨cause, rest, 0⟩

/-- Fails at the next character, or at the end of the text. -/
def failNext {α : Type} (cause : FaultCause) : Reader α :=
  fun rest => .error ⟨cause, rest, if rest.isEmpty then 0 else 1⟩

/-! ## Characters -/

def isBlank (c : Char) : Bool := c = ' ' || c = '\n' || c = '\t' || c = '\r'

/-- The next character that is not blank, which stays where it is. -/
def peek : Reader (Option Char) := do
  modify (·.dropWhile isBlank)
  return (← get).head?

/-- Passes over one character. -/
def skip : Reader Unit := modify List.tail

/-- Reads the rest of a word such as `null`. -/
def word : List Char → Reader Unit
  | [] => return
  | c :: cs => do
    match (← get).head? with
    | none => failHere .endInValue
    | some d => if c = d then skip; word cs else failNext .expectedWord

/-! ## Strings -/

def hexValue? (c : Char) : Option Nat :=
  if c.isDigit then some (c.toNat - '0'.toNat)
  else if 'a' ≤ c ∧ c ≤ 'f' then some (c.toNat - 'a'.toNat + 10)
  else if 'A' ≤ c ∧ c ≤ 'F' then some (c.toNat - 'A'.toNat + 10)
  else none

/-- Reads four hexadecimal digits. -/
def fourHexDigits : List Char → Except Fault (Nat × List Char)
  | cs@(a :: b :: c :: d :: rest) =>
    match hexValue? a, hexValue? b, hexValue? c, hexValue? d with
    | some a, some b, some c, some d => .ok (((a * 16 + b) * 16 + c) * 16 + d, rest)
    | _, _, _, _ => .error ⟨.invalidEscape, cs, 4⟩
  | cs =>
    if byteLength cs < 4 then .error ⟨.endInString, [], 0⟩ else .error ⟨.invalidEscape, cs, 4⟩

/-- The character of a surrogate pair. -/
def ofSurrogates (high low : Nat) : Char :=
  Char.ofNat ((high - 0xd800) * 0x400 + (low - 0xdc00) + 0x10000)

/-- Reads the second half of a surrogate pair, of which the first is `high`. -/
def surrogatePair (high : Nat) (cs : List Char) : Except Fault (Char × List Char) :=
  match cs with
  | [] => .error ⟨.endInString, [], 0⟩
  | c :: rest =>
    if c ≠ '\\' then .error ⟨.unpairedSurrogate, cs, 1⟩
    else
      match rest with
      | [] => .error ⟨.endInString, [], 0⟩
      | d :: digits =>
        if d ≠ 'u' then .error ⟨.unpairedSurrogate, rest, 1⟩
        else
          match fourHexDigits digits with
          | .error fault => .error fault
          | .ok (low, rest) =>
            if 0xdc00 ≤ low ∧ low ≤ 0xdfff then .ok (ofSurrogates high low, rest)
            else .error ⟨.loneSurrogate, rest, 0⟩

/-- Reads a character by its number. Of a discarded one only the digits count. -/
def numberedCharacter (discarded : Bool) (cs : List Char) : Except Fault (Char × List Char) := do
  let (n, rest) ← fourHexDigits cs
  if discarded then return (Char.ofNat n, rest)
  else if 0xdc00 ≤ n ∧ n ≤ 0xdfff then throw ⟨.loneSurrogate, rest, 0⟩
  else if 0xd800 ≤ n ∧ n ≤ 0xdbff then surrogatePair n rest
  else return (Char.ofNat n, rest)

/-- The character that a single letter or sign stands for after a backslash. -/
def shortEscape? : Char → Option Char
  | '"' => some '"'
  | '\\' => some '\\'
  | '/' => some '/'
  | 'b' => some '\x08'
  | 'f' => some '\x0c'
  | 'n' => some '\n'
  | 'r' => some '\r'
  | 't' => some '\t'
  | _ => none

/-- Reads what follows a backslash. -/
def escaped (discarded : Bool) : List Char → Except Fault (Char × List Char)
  | [] => .error ⟨.endInString, [], 0⟩
  | c :: cs =>
    if c = 'u' then numberedCharacter discarded cs
    else
      match shortEscape? c with
      | some d => .ok (d, cs)
      | none => .error ⟨.invalidEscape, c :: cs, 1⟩

theorem fourHexDigits_length {cs rest : List Char} {n : Nat}
    (h : fourHexDigits cs = .ok (n, rest)) : rest.length < cs.length := by
  unfold fourHexDigits at h
  split at h
  · split at h
    · cases h; simp; omega
    · cases h
  · split at h <;> cases h

theorem surrogatePair_length {high : Nat} {cs rest : List Char} {c : Char}
    (h : surrogatePair high cs = .ok (c, rest)) : rest.length < cs.length := by
  unfold surrogatePair at h
  split at h
  · contradiction
  split at h
  · contradiction
  split at h
  · contradiction
  split at h
  · contradiction
  split at h
  · contradiction
  next hd =>
    have := fourHexDigits_length hd
    split at h
    · simp only [Except.ok.injEq, Prod.mk.injEq] at h
      rw [← h.2]
      simp only [List.length_cons]
      omega
    · contradiction

theorem numberedCharacter_length {discarded : Bool} {cs rest : List Char} {c : Char}
    (h : numberedCharacter discarded cs = .ok (c, rest)) : rest.length < cs.length := by
  unfold numberedCharacter at h
  cases hd : fourHexDigits cs with
  | error e => simp [hd, bind, Except.bind] at h
  | ok r =>
    have := fourHexDigits_length hd
    simp only [hd, bind, Except.bind] at h
    split at h
    · cases h; exact this
    split at h
    · cases h
    split at h
    · exact Nat.lt_trans (surrogatePair_length h) this
    · cases h; exact this

theorem escaped_length {discarded : Bool} {cs rest : List Char} {c : Char}
    (h : escaped discarded cs = .ok (c, rest)) : rest.length < cs.length := by
  unfold escaped at h
  split at h
  · cases h
  split at h
  · exact Nat.lt_succ_of_lt (numberedCharacter_length h)
  split at h
  · cases h; simp
  · cases h

/-- Reads the characters of a string up to its closing quote and adds them to `seen`. -/
def stringTail (discarded : Bool) (seen : String) (cs : List Char) :
    Except Fault (String × List Char) :=
  match cs with
  | [] => .error ⟨.endInString, [], 0⟩
  | '"' :: rest => .ok (seen, rest)
  | '\\' :: rest =>
    match _h : escaped discarded rest with
    | .ok (c, rest') => stringTail discarded (seen.push c) rest'
    | .error fault => .error fault
  | c :: rest =>
    if c.toNat < 0x20 then .error ⟨.controlCharacter, c :: rest, if discarded then 0 else 1⟩
    else stringTail discarded (seen.push c) rest
  termination_by cs.length
  decreasing_by
    · have := escaped_length _h; simp; omega
    · simp

/-- Reads a string from its opening quote on. -/
def string (discarded : Bool) : Reader String := do
  skip
  fun rest => stringTail discarded "" rest

/-! ## Numbers -/

/-- A number of JSON: a whole one of up to sixty-four bits, or else a floating-point number. -/
inductive Number where
  | natural (value : Nat)
  /-- The number below zero with this magnitude. -/
  | negative (magnitude : Nat)
  | float (value : Float)

/-- The largest whole number that is kept exactly. -/
def largestNatural : Nat := 0xffffffffffffffff

/-- The largest magnitude of an exponent that is looked at. -/
def largestExponent : Nat := 0x7fffffff

/-- The largest magnitude of a whole number below zero that is kept exactly. -/
def largestNegative : Nat := 0x8000000000000000

/-- Adds digits to a number for as long as it does not exceed `limit`: the number, how many digits
were added, and the text after them. -/
def addDigits (limit value count : Nat) : List Char → Nat × Nat × List Char
  | [] => (value, count, [])
  | c :: cs =>
    let next := value * 10 + (c.toNat - '0'.toNat)
    if c.isDigit ∧ next ≤ limit then addDigits limit next (count + 1) cs
    else (value, count, c :: cs)

/-- Whether a digit comes next. -/
def digitNext : List Char → Bool
  | c :: _ => c.isDigit
  | [] => false

/-- A whole number times a power of ten in floating-point arithmetic, unless it is too large. Very
small powers are applied in parts. -/
def scaled : Nat → Float → Int → Option Float
  | 0, _, _ => some 0.0
  | fuel + 1, f, e =>
    if e.natAbs ≤ 308 then
      let power := Float.ofScientific 1 false e.natAbs
      let r := if 0 ≤ e then f * power else f / power
      if r.isInf then none else some r
    else if f == 0.0 then some f
    else if 0 ≤ e then none
    else scaled fuel (f / Float.ofScientific 1 false 308) (e + 308)

/-- The floating-point number of a significand and a decimal exponent. It must not be too large
unless it is discarded. -/
def floatOf (discarded negative : Bool) (significand : Nat) (exponent : Int) : Reader Number :=
  match scaled 4 (Float.ofNat significand) exponent with
  | some f => return .float (if negative then -f else f)
  | none => if discarded then return .float 0.0 else failHere .numberOutOfRange

/-- Reads the digits of an exponent after its mark. -/
def exponentTail (discarded negative : Bool) (significand : Nat) (start : Int) : Reader Number := do
  skip
  let sign := (← get).head?
  if sign = some '+' ∨ sign = some '-' then skip
  match (← get).head? with
  | none => failHere (if discarded then .invalidNumber else .endInValue)
  | some c =>
    if !c.isDigit then failNext .invalidNumber
    let (exponent, _, rest) := addDigits largestExponent 0 0 (← get)
    set rest
    if digitNext rest then
      if significand ≠ 0 ∧ sign ≠ some '-' ∧ !discarded then failNext .numberOutOfRange
      set (rest.dropWhile Char.isDigit)
      return .float (if negative then -0.0 else 0.0)
    let exponent : Int := if sign = some '-' then -exponent else exponent
    floatOf discarded negative significand (start + exponent)

/-- Whether the mark of an exponent comes next. -/
def exponentNext : List Char → Bool
  | c :: _ => c = 'e' || c = 'E'
  | [] => false

/-- Reads the digits after a point. -/
def fractionTail (discarded negative : Bool) (significand : Nat) (start : Int) : Reader Number := do
  skip
  let (significand, count, rest) := addDigits largestNatural significand 0 (← get)
  if count = 0 ∧ !digitNext rest then
    failNext (if rest.isEmpty ∧ !discarded then .endInValue else .invalidNumber)
  set (rest.dropWhile Char.isDigit)
  if exponentNext (← get) then exponentTail discarded negative significand (start - count)
  else floatOf discarded negative significand (start - count)

/-- Reads a number after its sign. Whole numbers without point and exponent stay whole, except for
the negative zero and what does not fit sixty-four bits. -/
def number (discarded negative : Bool) : Reader Number := do
  match (← get).head? with
  | none => failHere (if discarded then .invalidNumber else .endInValue)
  | some c =>
    if !c.isDigit then failNext .invalidNumber
    if c = '0' then
      skip
      if digitNext (← get) then failNext .invalidNumber
    let (significand, _, rest) := addDigits largestNatural 0 0 (← get)
    let dropped := rest.takeWhile Char.isDigit
    set (rest.dropWhile Char.isDigit)
    let exponent : Int := dropped.length
    if (← get).head? = some '.' then fractionTail discarded negative significand exponent
    else if exponentNext (← get) then exponentTail discarded negative significand exponent
    else if !dropped.isEmpty then floatOf discarded negative significand exponent
    else if !negative then return .natural significand
    else if significand = 0 ∨ largestNegative < significand then
      return .float (-Float.ofNat significand)
    else return .negative significand

/-! ## Values of the wrong type -/

/-- A number as messages about its type name it. -/
def Number.describe : Number → String
  | .natural n => s!"integer `{n}`"
  | .negative n => s!"integer `-{n}`"
  | .float f => "floating point `" ++ Decimal.text f ++ "`"

/-- Fails because of a value that is not of the wanted type. -/
def failType {α : Type} (found wanted : String) : Reader α :=
  failHere (.shape s!"invalid type: {found}, expected {wanted}")

/-- Fails because the value to come is not of the wanted type, or is no value. -/
def wrongType {α : Type} (wanted : String) : Reader α := do
  match (← get).head? with
  | some 'n' => skip; word ['u', 'l', 'l']; failType "null" wanted
  | some 't' => skip; word ['r', 'u', 'e']; failType "boolean `true`" wanted
  | some 'f' => skip; word ['a', 'l', 's', 'e']; failType "boolean `false`" wanted
  | some '"' => failType ("string " ++ Text.quoted (← string false)) wanted
  | some '[' => failType "sequence" wanted
  | some '\x7b' => failType "map" wanted
  | some '-' => skip; failType (← number false true).describe wanted
  | some c =>
    if c.isDigit then failType (← number false false).describe wanted else failNext .expectedValue
  | none => failNext .expectedValue

/-! ## Lists and objects -/

/-- Whether another item of a list follows. A comma must stand before every item but the first. -/
def anotherItem (first : Bool) : Reader Bool := do
  match ← peek with
  | none => failNext .endInList
  | some ']' => return false
  | some c =>
    if first then return true
    if c ≠ ',' then failNext .expectedListEnd
    skip
    match ← peek with
    | none => failNext .endInValue
    | some ']' => failNext .trailingComma
    | some _ => return true

/-- Reads the end of a list. -/
def listEnd : Reader Unit := do
  match ← peek with
  | some ']' => skip
  | some ',' =>
    skip
    match ← peek with
    | some ']' => failNext .trailingComma
    | _ => failNext .trailingCharacters
  | some _ => failNext .trailingCharacters
  | none => failNext .endInList

/-- Whether another member of an object follows. A comma must stand before every member but the
first. -/
def anotherMember (first : Bool) : Reader Bool := do
  match ← peek with
  | none => failNext .endInObject
  | some '\x7d' => return false
  | some c =>
    if first then
      if c = '"' then return true else failNext .keyNotString
    if c ≠ ',' then failNext .expectedObjectEnd
    skip
    match ← peek with
    | none => failNext .endInValue
    | some '"' => return true
    | some '\x7d' => failNext .trailingComma
    | some _ => failNext .keyNotString

/-- Reads the colon after a key. -/
def colon : Reader Unit := do
  match ← peek with
  | some ':' => skip
  | some _ => failNext .expectedColon
  | none => failNext .endInObject

/-- Reads the end of an object of which all members have been read. -/
def objectEnd : Reader Unit := do
  match ← peek with
  | some '\x7d' => skip
  | some ',' => failNext .trailingComma
  | some _ => failNext .trailingCharacters
  | none => failNext .endInObject

/-- Reads the end of the text. -/
def textEnd : Reader Unit := do
  if (← peek).isSome then failNext .trailingCharacters

/-! ## Discarding a value -/

/-- An open list or object. -/
inductive Bracket where
  | list
  | object

namespace Bracket

def closing : Bracket → Char
  | .list => ']'
  | .object => '\x7d'

/-- What is wrong when the text ends inside. -/
def endFault : Bracket → FaultCause
  | .list => .endInList
  | .object => .endInObject

/-- What is wrong when neither a comma nor the end follows a value. -/
def separatorFault : Bracket → FaultCause
  | .list => .expectedListEnd
  | .object => .expectedObjectEnd

/-- Reads what stands before a value inside: nothing, or a key and its colon. -/
def beforeValue : Bracket → Reader Unit
  | .list => return
  | .object => do
    match ← peek with
    | some '"' => let _ ← string true
    | some _ => failNext .keyNotString
    | none => failNext .endInObject
    colon

end Bracket

/-- Reads the beginning of a value: all of it, or the bracket that opens it. -/
def valueStart : Reader (Option Bracket) := do
  match ← peek with
  | none => failNext .endInValue
  | some 'n' => skip; word ['u', 'l', 'l']; return none
  | some 't' => skip; word ['r', 'u', 'e']; return none
  | some 'f' => skip; word ['a', 'l', 's', 'e']; return none
  | some '"' => let _ ← string true; return none
  | some '[' => skip; return some .list
  | some '\x7b' => skip; return some .object
  | some '-' => skip; let _ ← number true true; return none
  | some c =>
    if c.isDigit then let _ ← number true false; return none else failNext .expectedValue

/-- Where the discarding of a value stands. -/
inductive Discarding where
  /-- Before a value. -/
  | value
  /-- After an opening bracket. -/
  | opened
  /-- After a value. -/
  | closed

/-- Passes over the rest of a value inside open brackets, innermost first, in up to `fuel` steps. -/
def discardFrom : Nat → List Bracket → Discarding → Reader Unit
  | 0, _, _ => return
  | fuel + 1, open_, .value => do
    match ← valueStart with
    | some b => discardFrom fuel (b :: open_) .opened
    | none => discardFrom fuel open_ .closed
  | _ + 1, [], _ => return
  | fuel + 1, b :: open_, .opened => do
    match ← peek with
    | none => failNext b.endFault
    | some c =>
      if c = b.closing then
        skip
        discardFrom fuel open_ .closed
      else
        b.beforeValue
        discardFrom fuel (b :: open_) .value
  | fuel + 1, b :: open_, .closed => do
    match ← peek with
    | none => failNext b.endFault
    | some c =>
      if c = ',' then
        skip
        b.beforeValue
        discardFrom fuel (b :: open_) .value
      else if c = b.closing then
        skip
        discardFrom fuel open_ .closed
      else failNext b.separatorFault

/-- Passes over one value. Every second step takes a character. -/
def discard : Reader Unit := do
  discardFrom (2 * (← get).length + 2) [] .value

end Reader

end JassSyntax.Json
