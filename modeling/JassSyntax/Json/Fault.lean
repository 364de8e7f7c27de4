/-!
# Faults in JSON text

Why a text is not the JSON that was wanted, and where. A place is given by the text that is left and
by how many bytes of it belong to the fault; `Fault.place` turns it into line and column.
-/

namespace JassSyntax.Json

/-- Why a text is refused. -/
inductive FaultCause where
  | endInList
  | endInObject
  | endInString
  | endInValue
  | expectedColon
  | expectedListEnd
  | expectedObjectEnd
  | expectedWord
  | expectedValue
  | invalidEscape
  | invalidNumber
  | numberOutOfRange
  | controlCharacter
  | keyNotString
  | loneSurrogate
  | unpairedSurrogate
  | trailingComma
  | trailingCharacters
  /-- The text is JSON, but not for a value of the wanted shape. -/
  | shape (message : String)
  deriving DecidableEq, Repr

/-- The sorts of cause. -/
inductive FaultSort where
  /-- The text ends too early. -/
  | early
  /-- The text is no JSON. -/
  | malformed
  /-- The value has another shape than wanted. -/
  | shape
  deriving DecidableEq, Repr

namespace FaultCause

def sort : FaultCause → FaultSort
  | .endInList | .endInObject | .endInString | .endInValue => .early
  | .shape _ => .shape
  | _ => .malformed

def message : FaultCause → String
  | .endInList => "EOF while parsing a list"
  | .endInObject => "EOF while parsing an object"
  | .endInString => "EOF while parsing a string"
  | .endInValue => "EOF while parsing a value"
  | .expectedColon => "expected `:`"
  | .expectedListEnd => "expected `,` or `]`"
  | .expectedObjectEnd => "expected `,` or `\x7d`"
  | .expectedWord => "expected ident"
  | .expectedValue => "expected value"
  | .invalidEscape => "invalid escape"
  | .invalidNumber => "invalid number"
  | .numberOutOfRange => "number out of range"
  | .controlCharacter => "control character (\\u0000-\\u001F) found while parsing a string"
  | .keyNotString => "key must be a string"
  | .loneSurrogate => "lone leading surrogate in hex escape"
  | .unpairedSurrogate => "unexpected end of hex escape"
  | .trailingComma => "trailing comma"
  | .trailingCharacters => "trailing characters"
  | .shape message => message

end FaultCause

/-- A cause with its place: `past` bytes beyond the start of `rest`, which ends the text. -/
structure Fault where
  cause : FaultCause
  rest : List Char
  past : Nat
  deriving DecidableEq, Repr

/-- How many bytes the characters take. -/
def byteLength : List Char → Nat
  | [] => 0
  | c :: cs => c.utf8Size + byteLength cs

/-- Line and column of the place after `n` bytes of a text, when its first character stands in the
given ones. Lines are counted from one; a column is the number of bytes before it. -/
def placeAfter (line column : Nat) (n : Nat) : List Char → Nat × Nat
  | [] => (line, column)
  | c :: cs =>
    if n < c.utf8Size then (line, column + n)
    else if c = '\n' then placeAfter (line + 1) 0 (n - c.utf8Size) cs
    else placeAfter line (column + c.utf8Size) (n - c.utf8Size) cs

/-- Line and column of a fault in a text. -/
def Fault.place (f : Fault) (text : String) : Nat × Nat :=
  placeAfter 1 0 (text.utf8ByteSize - byteLength f.rest + f.past) text.toList

end JassSyntax.Json
