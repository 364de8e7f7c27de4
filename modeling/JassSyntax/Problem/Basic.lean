import JassSyntax.Token.Basic
import JassSyntax.Text.Quoted

/-!
# Problems in source text

Malformed source is never refused. What is wrong with it is recorded: a `ScanError` by the reading
of tokens, a `ParseError` by the reading of the grammar. A `Problem` is either, with a code, a
message and a span, so that both are listed and shown alike.
-/

namespace JassSyntax

/-- What can be wrong with the characters of a text. -/
inductive ScanError where
  | unrecognizedCharacter (found : Char) (span : Span)
  | unterminatedString (span : Span)
  | unterminatedBlockComment (span : Span)
  | unescapedNewline (span : Span)
  deriving DecidableEq, Repr

namespace ScanError

def span : ScanError → Span
  | unrecognizedCharacter _ s | unterminatedString s | unterminatedBlockComment s
  | unescapedNewline s => s

/-- The name of the error in machine-readable listings. -/
def name : ScanError → String
  | unrecognizedCharacter .. => "UnrecognizedCharacter"
  | unterminatedString _ => "UnterminatedString"
  | unterminatedBlockComment _ => "UnterminatedBlockComment"
  | unescapedNewline _ => "UnescapedNewline"

def code : ScanError → String
  | unrecognizedCharacter .. => "E0001"
  | unterminatedString _ => "E0002"
  | unterminatedBlockComment _ => "E0003"
  | unescapedNewline _ => "E0004"

def message : ScanError → String
  | unrecognizedCharacter found _ => "unrecognized character " ++ Text.quotedChar found
  | unterminatedString _ => "unterminated string literal"
  | unterminatedBlockComment _ => "unterminated block comment"
  | unescapedNewline _ => "newline in string literal"

end ScanError

/-- The sorts of error in the order of tokens. -/
inductive ParseErrorKind where
  | unexpectedToken
  | missingCloser
  | missingField
  | nestingTooDeep
  deriving DecidableEq, Repr, Inhabited

namespace ParseErrorKind

/-- The name of the sort in machine-readable listings. -/
def name : ParseErrorKind → String
  | unexpectedToken => "UnexpectedToken"
  | missingCloser => "MissingCloser"
  | missingField => "MissingField"
  | nestingTooDeep => "NestingTooDeep"

def code : ParseErrorKind → String
  | unexpectedToken => "E0101"
  | missingCloser => "E0102"
  | missingField => "E0103"
  | nestingTooDeep => "E0104"

end ParseErrorKind

/-- A token that the grammar does not allow where it stands. `expected` are the kinds that it would
have allowed there, so far as they are few, and `found` is the kind that was there. -/
structure ParseError where
  kind : ParseErrorKind
  message : String
  span : Span
  expected : KindSet
  found : Kind
  deriving DecidableEq, Repr

/-- Anything wrong with a source text. -/
inductive Problem where
  | scan (error : ScanError)
  | parse (error : ParseError)
  deriving DecidableEq, Repr

namespace Problem

def span : Problem → Span
  | scan e => e.span
  | parse e => e.span

def code : Problem → String
  | scan e => e.code
  | parse e => e.kind.code

def message : Problem → String
  | scan e => e.message
  | parse e => e.message

/-- What would have been accepted instead. -/
def expected : Problem → List Kind
  | scan _ => []
  | parse e => e.expected.toList

/-- The problems of one text by the offset at which they start. Of those that start together, scan
errors come first, and each sort keeps its own order. -/
def merge (scanErrors : List ScanError) (parseErrors : List ParseError) : List Problem :=
  (scanErrors.map scan ++ parseErrors.map parse).mergeSort
    fun p q => p.span.start.offset ≤ q.span.start.offset

end Problem

end JassSyntax
