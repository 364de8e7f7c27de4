import JassSyntax.Index.NameSet
import JassSyntax.Index.Outline

/-!
# Names in use

The names that one or several source texts define or use, sorted by what they stand for.
-/

namespace JassSyntax

/-- Names by what they stand for. -/
structure Names where
  functions : NameSet := .empty
  structs : NameSet := .empty
  globals : NameSet := .empty
  types : NameSet := .empty
  calls : NameSet := .empty
  deriving DecidableEq, Repr, Inhabited

namespace Tree

/-- The names that a block of globals declares directly in its body. -/
def globalNames (block : Tree) : List String :=
  let body := (block.node? .body).map childNodes |>.getD []
  (body.filter fun t => t.nodeKind? == some .variableDeclaration).flatMap fun declaration =>
    declaration.declaredTokens.map Token.text

/-- What a call calls, a method together with what it is a method of. -/
def callee? (source : String) (call : Tree) : Option String :=
  (call.first? .base).map fun base =>
    match call.tokenIn? .method with
    | some method => base.text source ++ ":" ++ method.text
    | none => base.text source

end Tree

namespace Names

/-- Adds the names of which a node is the definition or the use. -/
def addNode (source : String) (names : Names) (t : Tree) : Names :=
  match t.nodeKind? with
  | some .functionDefinition =>
    match t.first? .name with
    | some name => { names with functions := names.functions.insert (name.text source) }
    | none => names
  | some .structDefinition =>
    match t.tokenIn? .name with
    | some name => { names with structs := names.structs.insert name.text }
    | none => names
  | some .globalsBlock =>
    { names with globals := t.globalNames.foldl NameSet.insert names.globals }
  | some .variableDeclaration =>
    match t.tokenIn? .type with
    | some type => { names with types := names.types.insert type.text }
    | none => names
  | some .functionCall =>
    match t.callee? source with
    | some callee => { names with calls := names.calls.insert callee }
    | none => names
  | _ => names

/-- Adds the names in a tree, whose text is `source`. -/
def add (names : Names) (t : Tree) (source : String) : Names :=
  t.descendants.foldl (addNode source) names

/-- The sets with their headings, in the order of listing. -/
def sections (names : Names) : List (String × NameSet) :=
  [("Functions", names.functions), ("Structs", names.structs), ("Globals", names.globals),
   ("Types", names.types), ("Calls", names.calls)]

/-- The names under their headings, with their number. -/
def summary (names : Names) : String :=
  let listed (heading : String) (s : NameSet) : String :=
    heading ++ " found (" ++ toString s.size ++ ")\n"
      ++ String.join (s.toList.map fun name => "  - " ++ name ++ "\n") ++ "\n"
  "\n=== vJASS Analysis Results ===\n\n"
    ++ String.join (names.sections.map fun (heading, s) => listed heading s)

end Names

end JassSyntax
