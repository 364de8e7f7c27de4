import JassSyntax.Json.Value

/-!
# Settings

What a user can set: the form in which trees are printed, which files count as source, how many
problems are shown, and whether progress is reported.
-/

namespace JassSyntax

/-- The forms in which a tree can be printed. -/
inductive OutputFormat where
  | tree
  | sexp
  | json
  deriving DecidableEq, Repr, Inhabited

namespace OutputFormat

def all : List OutputFormat := [.tree, .sexp, .json]

def name : OutputFormat → String
  | .tree => "tree"
  | .sexp => "sexp"
  | .json => "json"

def ofName? (s : String) : Option OutputFormat := all.find? fun f => f.name == s

theorem ofName?_name (f : OutputFormat) : ofName? f.name = some f := by cases f <;> decide

end OutputFormat

/-- The settings in effect. The default values are those without a settings file. -/
structure Settings where
  format : OutputFormat := .tree
  /-- The extensions of source files, without the point. -/
  extensions : List String := ["j", "vj", "jass"]
  /-- How many problems of one file are shown, if not all. -/
  maxErrors : Option UInt64 := none
  verbose : Bool := false
  deriving DecidableEq, Repr, Inhabited

namespace Settings

def toJson (s : Settings) : Json :=
  .object [
    ("format", .string s.format.name),
    ("extensions", .array (s.extensions.map .string)),
    ("max_errors", (s.maxErrors.map fun n => Json.number n.toNat).getD .null),
    ("verbose", .bool s.verbose)]

/-- The text of a settings file. -/
def pretty (s : Settings) : String := s.toJson.pretty

end Settings

end JassSyntax
