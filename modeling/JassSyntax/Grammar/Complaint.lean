import JassSyntax.Problem.Basic
import JassSyntax.Tree.Kind

/-!
# Complaints of the grammar

Every way in which a token can fail to fit, before it is put into words. `Complaint.toError` fixes
the sort of error, its message and the kinds that are listed as expected.
-/

namespace JassSyntax

/-- Why a token does not fit where it stands. -/
inductive Complaint where
  /-- It begins no statement, outside every block. -/
  | strayAtTopLevel
  /-- It begins no statement inside a construct whose body ends at `terminators`. -/
  | strayInside (construct : NodeKind) (terminators : List Kind)
  /-- It closes something, inside a construct whose body ends at `terminators`. -/
  | closesNothing (terminators : List Kind)
  /-- Another kind of token has to stand here. -/
  | unexpected (wanted : Kind)
  /-- A part that the construct must have, and that `wanted` would fill, is not there. -/
  | absentPart (role : Role) (construct : NodeKind) (wanted : Kind)
  /-- A method call goes on without arguments. -/
  | absentArguments
  /-- No expression begins here. -/
  | noExpression
  /-- No field of a table begins here. -/
  | noTableField
  /-- A construct is not closed by `closer`. -/
  | unclosed (construct : NodeKind) (closer : Kind)
  /-- Constructs lie inside each other more than `limit` levels deep. -/
  | tooDeep (limit : Nat)
  deriving DecidableEq, Repr

namespace Complaint

def sort : Complaint → ParseErrorKind
  | strayAtTopLevel | strayInside .. | closesNothing _ | unexpected _ | noExpression
  | noTableField => .unexpectedToken
  | absentPart .. | absentArguments => .missingField
  | unclosed .. => .missingCloser
  | tooDeep _ => .nestingTooDeep

/-- The kinds that the token could have been of instead. -/
def expected : Complaint → List Kind
  | strayAtTopLevel | tooDeep _ => []
  | strayInside _ terminators | closesNothing terminators => terminators
  | unexpected wanted | absentPart _ _ wanted => [wanted]
  | absentArguments => [.lParen, .stringStart, .lBrace]
  | noExpression => [.identifier, .number, .float, .stringStart, .lParen, .lBrace]
  | noTableField => [.identifier, .lBracket, .rBrace]
  | unclosed _ closer => [closer]

/-- The complaint in words, about a token of the kind `found`. -/
def message (found : Kind) : Complaint → String
  | strayAtTopLevel => "unexpected " ++ found.describe ++ " at top level"
  | strayInside construct _ => "unexpected " ++ found.describe ++ " in " ++ construct.name
  | closesNothing _ => found.describe ++ " does not close any open block"
  | unexpected wanted => "expected " ++ wanted.describe ++ ", found " ++ found.describe
  | absentPart role construct wanted =>
    "missing " ++ role.label ++ " for " ++ construct.name ++ ", found "
      ++ (if wanted = .identifier ∧ found.isKeyword then "keyword " else "") ++ found.describe
  | absentArguments => "missing args for method call, found " ++ found.describe
  | noExpression => "expected expression, found " ++ found.describe
  | noTableField => "expected table field, found " ++ found.describe
  | unclosed construct closer =>
    "expected " ++ closer.describe ++ " (" ++ construct.closerAlias.getD "block" ++ ")"
      ++ (if found = .eof then " before end of input" else ", found " ++ found.describe)
  | tooDeep limit => "nesting deeper than " ++ toString limit ++ " levels"

/-- The error that reports the complaint, about a token of the kind `found`, at `span`. -/
def toError (c : Complaint) (span : Span) (found : Kind) : ParseError where
  kind := c.sort
  message := c.message found
  span := span
  expected := .ofList c.expected
  found := found

end Complaint

end JassSyntax
