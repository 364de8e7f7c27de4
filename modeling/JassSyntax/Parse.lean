import JassSyntax.Grammar.Program
import JassSyntax.Text.Utf8
import JassSyntax.Token.Scanner

/-!
# From source text to a tree

Every text has a tree. What is wrong with the text is listed beside it. Only bytes that are no text
at all are refused.
-/

namespace JassSyntax

/-- What reading one source text gives. -/
structure Parse where
  tree : Tree
  scanErrors : List ScanError
  parseErrors : List ParseError
  deriving Repr, Inhabited

namespace Parse

/-- Whether anything is wrong with the text. -/
def hasErrors (p : Parse) : Bool := !p.scanErrors.isEmpty || !p.parseErrors.isEmpty

/-- Everything that is wrong with the text, by the offset at which it starts. -/
def problems (p : Parse) : List Problem := Problem.merge p.scanErrors p.parseErrors

end Parse

/-- Reads a source text. -/
def parse (source : String) : Parse :=
  let (tokens, scanErrors) := scan source
  let (tree, parseErrors) := Program.parse tokens
  { tree, scanErrors, parseErrors }

/-- Reads the source text that the bytes stand for. -/
def parseBytes (bytes : List UInt8) : Except Text.Malformed Parse :=
  (Text.ofBytes bytes).map parse

end JassSyntax
