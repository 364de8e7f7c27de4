import JassSyntax.Tree.Kind

/-!
# What a token can begin, join or end

The grammar decides by one token what to read. These are the classes of kinds that it asks for, and
the powers with which operators bind.
-/

namespace JassSyntax

/-! ## Operators -/

/-- Which of two operators of one power takes the operand between them. -/
inductive Associativity where
  | left
  | right
  deriving DecidableEq, Repr

namespace Power

/-- Of the comma, which binds loosest. -/
def comma : Nat := 1

/-- Of the assignment. -/
def assignment : Nat := 2

/-- Of operators before their operand. -/
def unary : Nat := 10

end Power

namespace Kind

/-- How tightly an operator between two operands binds, and to which side it associates. -/
def binary? : Kind → Option (Nat × Associativity)
  | .comma => some (Power.comma, .left)
  | .equals => some (Power.assignment, .right)
  | .kwOr => some (3, .left)
  | .kwAnd => some (4, .left)
  | .eqEq | .tildeEq | .bangEq => some (5, .left)
  | .lt | .gt | .ltEq | .gtEq => some (6, .left)
  | .dotDot => some (7, .right)
  | .plus | .minus => some (8, .left)
  | .star | .slash | .percent => some (9, .left)
  | .caret => some (11, .right)
  | _ => none

/-- Operators that stand before their operand. -/
def isUnary : Kind → Bool
  | .kwNot | .hash | .minus | .plus | .tilde | .plusPlus | .minusMinus => true
  | _ => false

/-! ## Beginnings -/

/-- What begins the arguments of a call: a list in parentheses, a string or a table. -/
def startsArguments : Kind → Bool
  | .lParen | .stringStart | .lBrace => true
  | _ => false

def canStartExpression : Kind → Bool
  | .identifier | .number | .float | .stringStart | .lParen | .lBrace | .kwFunction
  | .kwNot | .hash | .minus | .plus | .tilde | .plusPlus | .minusMinus => true
  | _ => false

def canStartStatement (k : Kind) : Bool :=
  k.canStartExpression ||
    match k with
    | .kwLocal | .kwConstant | .kwArray | .kwGlobals | .kwStruct | .kwLoop | .kwDo | .kwWhile
    | .kwRepeat | .kwIf | .kwReturn | .kwBreak | .semicolon => true
    | _ => false

/-- Words before the type or name of a declaration. -/
def isModifier : Kind → Bool
  | .kwLocal | .kwConstant | .kwArray => true
  | _ => false

/-! ## Ends -/

/-- Keywords that only ever close something. -/
def isClosingKeyword : Kind → Bool
  | .kwEnd | .kwEndStruct | .kwEndGlobals | .kwEndLoop | .kwUntil | .kwElse | .kwElseIf => true
  | _ => false

/-- Brackets that close. -/
def isClosingBracket : Kind → Bool
  | .rParen | .rBracket | .rBrace => true
  | _ => false

/-- Operators and punctuation that begin nothing, so that they may always be skipped. -/
def isStray : Kind → Bool
  | .star | .slash | .percent | .caret | .dotDot | .eqEq | .tildeEq | .bangEq | .ltEq | .gtEq
  | .lt | .gt | .equals | .dot | .error | .rParen | .rBracket | .rBrace => true
  | _ => false

/-! ## Nesting -/

/-- Brackets and keywords that open a region which another one closes. -/
def opensNesting : Kind → Bool
  | .lParen | .lBracket | .lBrace | .kwIf | .kwFunction | .kwStruct | .kwGlobals | .kwLoop
  | .kwRepeat | .kwDo => true
  | _ => false

def closesNesting : Kind → Bool
  | .rParen | .rBracket | .rBrace | .kwEnd | .kwEndStruct | .kwEndGlobals | .kwEndLoop
  | .kwUntil => true
  | _ => false

end Kind

end JassSyntax
