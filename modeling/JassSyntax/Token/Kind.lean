/-!
# Kinds of token

Every token has one of finitely many kinds. A keyword or operator has one fixed spelling; the kinds
of names, literals and comment parts have many. `KindSet` is a set of kinds in declaration order,
which is the order in which diagnostics list what would have been accepted.
-/

namespace JassSyntax

/-- What a token is. The order of the constructors is the order of listing. -/
inductive Kind where
  | identifier | number | float
  | stringStart | stringContent | stringEnd
  | blockCommentStart | blockCommentContent | blockCommentEnd | lineComment
  | kwStruct | kwEndStruct | kwGlobals | kwEndGlobals | kwLoop | kwEndLoop | kwFunction | kwEnd
  | kwIf | kwThen | kwElseIf | kwElse | kwWhile | kwDo | kwRepeat | kwUntil | kwReturn | kwBreak
  | kwLocal | kwConstant | kwArray | kwAnd | kwOr | kwNot
  | plus | minus | star | slash | percent | caret | dotDot | eqEq | tildeEq | bangEq | ltEq
  | gtEq | lt | gt | equals | tilde | plusPlus | minusMinus | hash
  | lParen | rParen | lBracket | rBracket | lBrace | rBrace | comma | semicolon | colon | dot
  | error | eof
  deriving DecidableEq, Repr, Inhabited

namespace Kind

/-- Every kind, in declaration order. -/
def all : List Kind :=
  [.identifier, .number, .float, .stringStart, .stringContent, .stringEnd, .blockCommentStart,
   .blockCommentContent, .blockCommentEnd, .lineComment, .kwStruct, .kwEndStruct, .kwGlobals,
   .kwEndGlobals, .kwLoop, .kwEndLoop, .kwFunction, .kwEnd, .kwIf, .kwThen, .kwElseIf, .kwElse,
   .kwWhile, .kwDo, .kwRepeat, .kwUntil, .kwReturn, .kwBreak, .kwLocal, .kwConstant, .kwArray,
   .kwAnd, .kwOr, .kwNot, .plus, .minus, .star, .slash, .percent, .caret, .dotDot, .eqEq,
   .tildeEq, .bangEq, .ltEq, .gtEq, .lt, .gt, .equals, .tilde, .plusPlus, .minusMinus, .hash,
   .lParen, .rParen, .lBracket, .rBracket, .lBrace, .rBrace, .comma, .semicolon, .colon, .dot,
   .error, .eof]

theorem mem_all (k : Kind) : k ∈ all := by cases k <;> decide

theorem all_sorted : all.Pairwise (fun a b => a.ctorIdx < b.ctorIdx) := by decide

/-- The name of the kind in token listings. -/
def name : Kind → String
  | .identifier => "Identifier"
  | .number => "Number"
  | .float => "Float"
  | .stringStart => "StringStart"
  | .stringContent => "StringContent"
  | .stringEnd => "StringEnd"
  | .blockCommentStart => "BlockCommentStart"
  | .blockCommentContent => "BlockCommentContent"
  | .blockCommentEnd => "BlockCommentEnd"
  | .lineComment => "LineComment"
  | .kwStruct => "Struct"
  | .kwEndStruct => "EndStruct"
  | .kwGlobals => "Globals"
  | .kwEndGlobals => "EndGlobals"
  | .kwLoop => "Loop"
  | .kwEndLoop => "EndLoop"
  | .kwFunction => "Function"
  | .kwEnd => "End"
  | .kwIf => "If"
  | .kwThen => "Then"
  | .kwElseIf => "ElseIf"
  | .kwElse => "Else"
  | .kwWhile => "While"
  | .kwDo => "Do"
  | .kwRepeat => "Repeat"
  | .kwUntil => "Until"
  | .kwReturn => "Return"
  | .kwBreak => "Break"
  | .kwLocal => "Local"
  | .kwConstant => "Constant"
  | .kwArray => "Array"
  | .kwAnd => "And"
  | .kwOr => "Or"
  | .kwNot => "Not"
  | .plus => "Plus"
  | .minus => "Minus"
  | .star => "Star"
  | .slash => "Slash"
  | .percent => "Percent"
  | .caret => "Caret"
  | .dotDot => "DotDot"
  | .eqEq => "EqEq"
  | .tildeEq => "TildeEq"
  | .bangEq => "BangEq"
  | .ltEq => "LtEq"
  | .gtEq => "GtEq"
  | .lt => "Lt"
  | .gt => "Gt"
  | .equals => "Equals"
  | .tilde => "Tilde"
  | .plusPlus => "PlusPlus"
  | .minusMinus => "MinusMinus"
  | .hash => "Hash"
  | .lParen => "LParen"
  | .rParen => "RParen"
  | .lBracket => "LBracket"
  | .rBracket => "RBracket"
  | .lBrace => "LBrace"
  | .rBrace => "RBrace"
  | .comma => "Comma"
  | .semicolon => "Semicolon"
  | .colon => "Colon"
  | .dot => "Dot"
  | .error => "Error"
  | .eof => "Eof"

/-! ## Fixed spellings -/

/-- The spelling of a kind that has only one. -/
def spelling? : Kind → Option String
  | .kwStruct => some "struct"
  | .kwEndStruct => some "endstruct"
  | .kwGlobals => some "globals"
  | .kwEndGlobals => some "endglobals"
  | .kwLoop => some "loop"
  | .kwEndLoop => some "endloop"
  | .kwFunction => some "function"
  | .kwEnd => some "end"
  | .kwIf => some "if"
  | .kwThen => some "then"
  | .kwElseIf => some "elseif"
  | .kwElse => some "else"
  | .kwWhile => some "while"
  | .kwDo => some "do"
  | .kwRepeat => some "repeat"
  | .kwUntil => some "until"
  | .kwReturn => some "return"
  | .kwBreak => some "break"
  | .kwLocal => some "local"
  | .kwConstant => some "constant"
  | .kwArray => some "array"
  | .kwAnd => some "and"
  | .kwOr => some "or"
  | .kwNot => some "not"
  | .plus => some "+"
  | .minus => some "-"
  | .star => some "*"
  | .slash => some "/"
  | .percent => some "%"
  | .caret => some "^"
  | .dotDot => some ".."
  | .eqEq => some "=="
  | .tildeEq => some "~="
  | .bangEq => some "!="
  | .ltEq => some "<="
  | .gtEq => some ">="
  | .lt => some "<"
  | .gt => some ">"
  | .equals => some "="
  | .tilde => some "~"
  | .plusPlus => some "++"
  | .minusMinus => some "--"
  | .hash => some "#"
  | .lParen => some "("
  | .rParen => some ")"
  | .lBracket => some "["
  | .rBracket => some "]"
  | .lBrace => some "\x7b"
  | .rBrace => some "\x7d"
  | .comma => some ","
  | .semicolon => some ";"
  | .colon => some ":"
  | .dot => some "."
  | .blockCommentStart => some "/*"
  | .blockCommentEnd => some "*/"
  | _ => none

/-- The reserved words. -/
def keywords : List Kind :=
  [.kwStruct, .kwEndStruct, .kwGlobals, .kwEndGlobals, .kwLoop, .kwEndLoop, .kwFunction, .kwEnd,
   .kwIf, .kwThen, .kwElseIf, .kwElse, .kwWhile, .kwDo, .kwRepeat, .kwUntil, .kwReturn, .kwBreak,
   .kwLocal, .kwConstant, .kwArray, .kwAnd, .kwOr, .kwNot]

/-- Operators and punctuation, those of two characters first, so that the first of them that the
text begins with is the longest one. -/
def operators : List Kind :=
  [.dotDot, .eqEq, .tildeEq, .bangEq, .ltEq, .gtEq, .plusPlus, .minusMinus, .plus, .minus, .star,
   .slash, .percent, .caret, .lt, .gt, .equals, .tilde, .hash, .lParen, .rParen, .lBracket,
   .rBracket, .lBrace, .rBrace, .comma, .semicolon, .colon, .dot]

/-- The keyword spelled `word`. Any other word is a name. -/
def keyword? (word : String) : Option Kind :=
  keywords.find? fun k => k.spelling? == some word

/-- Whether the kind is a reserved word. -/
def isKeyword (k : Kind) : Bool := keywords.contains k

/-- Comments are kept in the tree and passed over by the grammar. -/
def isTrivia : Kind → Bool
  | .lineComment | .blockCommentStart | .blockCommentContent | .blockCommentEnd => true
  | _ => false

/-- The kind as messages name it: a fixed spelling stands in backquotes. -/
def describe (k : Kind) : String :=
  match k with
  | .identifier => "identifier"
  | .number => "number"
  | .float => "float"
  | .stringStart => "string"
  | .stringContent => "string content"
  | .stringEnd => "closing quote"
  | .blockCommentContent | .lineComment => "comment"
  | .error => "invalid character"
  | .eof => "end of input"
  | _ => "`" ++ k.spelling?.getD "" ++ "`"

end Kind

/-! ## Sets of kinds -/

/-- A set of kinds, listed in declaration order and without repetition. -/
structure KindSet where
  toList : List Kind
  sorted : toList.Pairwise (fun a b => a.ctorIdx < b.ctorIdx)
  deriving DecidableEq, Repr

namespace KindSet

/-- The kinds that occur in `ks`. -/
def ofList (ks : List Kind) : KindSet where
  toList := Kind.all.filter ks.contains
  sorted := Kind.all_sorted.filter _

instance : Membership Kind KindSet where
  mem s k := k ∈ s.toList

instance : Inhabited KindSet := ⟨ofList []⟩

@[simp] theorem mem_ofList {k : Kind} {ks : List Kind} : k ∈ ofList ks ↔ k ∈ ks := by
  show k ∈ Kind.all.filter ks.contains ↔ _
  simp [Kind.mem_all]

/-- How many kinds the set has. -/
def size (s : KindSet) : Nat := s.toList.length

end KindSet

end JassSyntax
