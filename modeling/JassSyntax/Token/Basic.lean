import JassSyntax.Source.Position
import JassSyntax.Token.Kind

/-!
# Tokens
-/

namespace JassSyntax

/-- A piece of source text with its kind and place. -/
structure Token where
  kind : Kind
  text : String
  span : Span
  deriving DecidableEq, Repr, Inhabited

namespace Token

/-- Whether the token is (part of) a comment. -/
def isTrivia (t : Token) : Bool := t.kind.isTrivia

/-- The token of no text that ends a stream. -/
def endOfInput (at_ : Position) : Token := ⟨.eof, "", Span.empty at_⟩

end Token

end JassSyntax
