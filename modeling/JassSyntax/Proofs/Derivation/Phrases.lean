import JassSyntax.Token.Kind
import Mathlib.Computability.ContextFreeGrammar

/-!
# The words of the grammar

The grammar that the library documents, as rules that rewrite phrases to kinds of tokens and further
phrases. It says which sequences of tokens are lists of statements, and nothing of their trees: how
operators group changes the tree of an expression, not whether it is one, so expressions of all
powers are one phrase here, and the comma of expression lists is an operator like the others. What
may be repeated or left out has phrases of its own.
-/

namespace JassSyntax

/-- What the grammar has rules for. -/
inductive Phrase where
  | statements
  | statement
  /-- What stands between the first body of a conditional and its closer. -/
  | branches
  | functionName
  | parameters
  | parameterList
  | parameter
  | declaration
  | modifiers
  | modifier
  /-- The words behind the type of a declaration. -/
  | arrays
  | declarators
  | declarator
  /-- Expressions with commas between them. -/
  | expressions
  | expression
  | prefixOperator
  | infixOperator
  | string
  | table
  | fields
  | field
  | separator
  | arguments
  deriving DecidableEq, Repr

namespace Phrase

/-- Every phrase. -/
def all : List Phrase :=
  [statements, statement, branches, functionName, parameters, parameterList, parameter, declaration,
   modifiers, modifier, arrays, declarators, declarator, expressions, expression, prefixOperator,
   infixOperator, string, table, fields, field, separator, arguments]

theorem mem_all (p : Phrase) : p ∈ all := by cases p <;> decide

/-- A kind of token or a phrase. -/
abbrev Part := Symbol Kind Phrase

instance : Coe Kind Part := ⟨.terminal⟩

instance : Coe Phrase Part := ⟨.nonterminal⟩

open Kind in
/-- What a phrase may be rewritten to. -/
def rules : Phrase → List (List Part)
  | statements => [[], [statement, statements]]
  | statement =>
    [[declaration],
     [kwGlobals, statements, kwEndGlobals],
     [kwStruct, identifier, statements, kwEndStruct],
     [kwLoop, statements, kwEndLoop],
     [kwDo, statements, kwEnd],
     [kwWhile, expression, kwDo, statements, kwEnd],
     [kwRepeat, statements, kwUntil, expression],
     [kwIf, expression, kwThen, statements, branches, kwEnd],
     [kwFunction, functionName, parameters, statements, kwEnd],
     [expression],
     [kwReturn],
     [kwReturn, expressions],
     [kwBreak],
     [semicolon]]
  | branches =>
    [[], [kwElse, statements], [kwElseIf, expression, kwThen, statements, branches]]
  | functionName =>
    [[identifier], [identifier, colon, identifier], [identifier, dot, functionName]]
  | parameters => [[lParen, rParen], [lParen, parameterList, rParen]]
  | parameterList => [[parameter], [parameter, comma, parameterList]]
  | parameter => [[identifier], [identifier, identifier]]
  | declaration =>
    [[modifiers, identifier, arrays, declarators], [modifier, modifiers, declarators]]
  | modifiers => [[], [modifier, modifiers]]
  | modifier => [[kwLocal], [kwConstant], [kwArray]]
  | arrays => [[], [kwArray, arrays]]
  | declarators => [[declarator], [declarator, comma, declarators]]
  | declarator => [[identifier], [identifier, equals, expression]]
  | expressions => [[expression], [expression, comma, expressions]]
  | expression =>
    [[identifier], [number], [float], [string], [table],
     [lParen, expression, rParen],
     [kwFunction, parameters, statements, kwEnd],
     [expression, dot, identifier],
     [expression, lBracket, expression, rBracket],
     [expression, arguments],
     [expression, colon, identifier, arguments],
     [expression, plusPlus],
     [expression, minusMinus],
     [prefixOperator, expression],
     [expression, infixOperator, expression]]
  | prefixOperator => [[kwNot], [hash], [minus], [plus], [tilde], [plusPlus], [minusMinus]]
  | infixOperator =>
    [[caret], [star], [slash], [percent], [plus], [minus], [dotDot], [lt], [gt], [ltEq], [gtEq],
     [eqEq], [tildeEq], [bangEq], [kwAnd], [kwOr], [equals], [comma]]
  | string => [[stringStart, stringEnd], [stringStart, stringContent, stringEnd]]
  | table => [[lBrace, rBrace], [lBrace, fields, rBrace]]
  | fields => [[field], [field, separator], [field, separator, fields]]
  | field =>
    [[expression], [identifier, equals, expression],
     [lBracket, expression, rBracket, equals, expression]]
  | separator => [[comma], [semicolon]]
  | arguments => [[lParen, rParen], [lParen, expressions, rParen], [string], [table]]

/-- The rules of all phrases. -/
def allRules : List (ContextFreeRule Kind Phrase) :=
  all.flatMap fun p => p.rules.map (ContextFreeRule.mk p)

theorem mem_allRules {r : ContextFreeRule Kind Phrase} :
    r ∈ allRules ↔ r.output ∈ r.input.rules := by
  unfold allRules
  rw [List.mem_flatMap]
  constructor
  · rintro ⟨p, _, mem⟩
    obtain ⟨form, rule, rfl⟩ := List.mem_map.mp mem
    exact rule
  · intro rule
    exact ⟨r.input, mem_all r.input, List.mem_map.mpr ⟨r.output, rule, rfl⟩⟩

/-- The documented grammar, of lists of statements. -/
def grammar : ContextFreeGrammar Kind where
  NT := Phrase
  initial := statements
  rules := allRules.toFinset

theorem mem_rules {r : ContextFreeRule Kind Phrase} :
    r ∈ grammar.rules ↔ r.output ∈ r.input.rules :=
  List.mem_toFinset.trans mem_allRules

/-! ## Derivations part by part -/

section Derivations

variable {p : Phrase} {form u u' : List Part} {v w : List Kind}

/-- What the parts derive, the whole derives. -/
theorem derives_append (first : grammar.Derives u (v.map .terminal))
    (second : grammar.Derives u' (w.map .terminal)) :
    grammar.Derives (u ++ u') ((v ++ w).map .terminal) := by
  rw [List.map_append]
  exact (first.append_right u').trans (second.append_left _)

/-- A phrase derives what one of its rules does. -/
theorem derives_phrase (rule : form ∈ p.rules) (derives : grammar.Derives form (v.map .terminal)) :
    grammar.Derives [.nonterminal p] (v.map .terminal) := by
  have step : grammar.Produces [.nonterminal p] form :=
    ⟨⟨p, form⟩, mem_rules.mpr rule, .input_output⟩
  exact step.trans_derives derives

/-- A single statement is a list of statements. -/
theorem derives_statements (rule : form ∈ statement.rules)
    (derives : grammar.Derives form (v.map .terminal)) :
    grammar.Derives [.nonterminal statements] (v.map .terminal) := by
  have more : [.nonterminal statement, .nonterminal statements] ∈ statements.rules := by decide
  have none : ([] : List Part) ∈ statements.rules := by decide
  have last : grammar.Derives [.nonterminal statements] (([] : List Kind).map .terminal) :=
    derives_phrase none (.refl [])
  have whole := derives_phrase more (derives_append (derives_phrase rule derives) last)
  rwa [List.append_nil] at whole

end Derivations

end Phrase

end JassSyntax
