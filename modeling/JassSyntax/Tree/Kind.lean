import JassSyntax.Token.Kind

/-!
# Kinds of node, and roles of children

The names of both are what tools match against, in S-expressions, dumps and JSON alike. A construct
with a body is closed by one keyword, which its node kind determines.
-/

namespace JassSyntax

/-- What a node of the tree stands for. -/
inductive NodeKind where
  | program | block | blockComment | variableDeclaration | declarator | globalsBlock
  | structDefinition | loopStatement | doStatement | whileStatement | repeatStatement
  | ifStatement | elseifClause | elseClause | functionDefinition | functionName | parameters
  | parameter | returnStatement | breakStatement | emptyStatement | expressionStatement
  | binaryExpression | unaryExpression | updateExpression | assignmentExpression | expressionList
  | parenthesizedExpression | memberExpression | indexExpression | functionCall | arguments
  | tableConstructor | field | string | functionExpression | error
  deriving DecidableEq, Repr, Inhabited

namespace NodeKind

/-- Every kind of node. -/
def all : List NodeKind :=
  [.program, .block, .blockComment, .variableDeclaration, .declarator, .globalsBlock,
   .structDefinition, .loopStatement, .doStatement, .whileStatement, .repeatStatement,
   .ifStatement, .elseifClause, .elseClause, .functionDefinition, .functionName, .parameters,
   .parameter, .returnStatement, .breakStatement, .emptyStatement, .expressionStatement,
   .binaryExpression, .unaryExpression, .updateExpression, .assignmentExpression,
   .expressionList, .parenthesizedExpression, .memberExpression, .indexExpression, .functionCall,
   .arguments, .tableConstructor, .field, .string, .functionExpression, .error]

theorem mem_all (k : NodeKind) : k ∈ all := by cases k <;> decide

/-- The name of the kind in every form of output. -/
def name : NodeKind → String
  | .program => "program"
  | .block => "block"
  | .blockComment => "block_comment"
  | .variableDeclaration => "variable_declaration"
  | .declarator => "declarator"
  | .globalsBlock => "globals_block"
  | .structDefinition => "struct_definition"
  | .loopStatement => "loop_statement"
  | .doStatement => "do_statement"
  | .whileStatement => "while_statement"
  | .repeatStatement => "repeat_statement"
  | .ifStatement => "if_statement"
  | .elseifClause => "elseif_clause"
  | .elseClause => "else_clause"
  | .functionDefinition => "function_definition"
  | .functionName => "function_name"
  | .parameters => "parameters"
  | .parameter => "parameter"
  | .returnStatement => "return_statement"
  | .breakStatement => "break_statement"
  | .emptyStatement => "empty_statement"
  | .expressionStatement => "expression_statement"
  | .binaryExpression => "binary_expression"
  | .unaryExpression => "unary_expression"
  | .updateExpression => "update_expression"
  | .assignmentExpression => "assignment_expression"
  | .expressionList => "expression_list"
  | .parenthesizedExpression => "parenthesized_expression"
  | .memberExpression => "member_expression"
  | .indexExpression => "index_expression"
  | .functionCall => "function_call"
  | .arguments => "arguments"
  | .tableConstructor => "table_constructor"
  | .field => "field"
  | .string => "string"
  | .functionExpression => "function_expression"
  | .error => "ERROR"

/-- The keyword that closes a construct of this kind. -/
def closer : NodeKind → Option Kind
  | .functionDefinition | .functionExpression | .ifStatement | .whileStatement
  | .doStatement => some .kwEnd
  | .structDefinition => some .kwEndStruct
  | .globalsBlock => some .kwEndGlobals
  | .loopStatement => some .kwEndLoop
  | .repeatStatement => some .kwUntil
  | _ => none

/-- What the closing keyword is called inside a construct of this kind. The one spelling `end` is
called differently in each. -/
def closerAlias : NodeKind → Option String
  | .functionDefinition | .functionExpression => some "function_end"
  | .ifStatement => some "if_end"
  | .whileStatement => some "while_end"
  | .doStatement => some "do_end"
  | .structDefinition => some "struct_end"
  | .globalsBlock => some "globals_end"
  | .loopStatement => some "loop_end"
  | .repeatStatement => some "repeat_until"
  | _ => none

theorem closerAlias_isSome (k : NodeKind) : k.closerAlias.isSome = k.closer.isSome := by
  cases k <;> rfl

end NodeKind

/-- The part that a child plays in its parent. -/
inductive Role where
  | type | name | args | base | key | value | opening | content | closing | left | right
  | operator | operand | condition | body | alternative | parameters | method | index | modifier
  | declarator
  deriving DecidableEq, Repr, Inhabited

namespace Role

/-- Every role. -/
def all : List Role :=
  [.type, .name, .args, .base, .key, .value, .opening, .content, .closing, .left, .right,
   .operator, .operand, .condition, .body, .alternative, .parameters, .method, .index, .modifier,
   .declarator]

theorem mem_all (r : Role) : r ∈ all := by cases r <;> decide

/-- What every form of output puts before a child that plays the role. -/
def label : Role → String
  | .type => "type"
  | .name => "name"
  | .args => "args"
  | .base => "prefix"
  | .key => "key"
  | .value => "value"
  | .opening => "start"
  | .content => "content"
  | .closing => "end"
  | .left => "left"
  | .right => "right"
  | .operator => "operator"
  | .operand => "operand"
  | .condition => "condition"
  | .body => "body"
  | .alternative => "alternative"
  | .parameters => "parameters"
  | .method => "method"
  | .index => "index"
  | .modifier => "modifier"
  | .declarator => "declarator"

end Role

end JassSyntax
