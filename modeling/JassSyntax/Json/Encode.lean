import JassSyntax.Index.Names
import JassSyntax.Json.Value
import JassSyntax.Parse

/-!
# JSON forms

How positions, tokens, trees, errors, outlines and names are written as JSON. The order of members
is that of the listing here, or that of the alphabet after `Json.sorted`.
-/

namespace JassSyntax

namespace Position

def toJson (p : Position) : Json :=
  .object [("offset", .number p.offset), ("line", .number p.line), ("column", .number p.column)]

end Position

namespace Span

def toJson (s : Span) : Json := .object [("start", s.start.toJson), ("end", s.stop.toJson)]

end Span

namespace Token

/-- The members of a token. -/
def jsonMembers (t : Token) : List (String × Json) :=
  [("kind", .string t.kind.name), ("value", .string t.text), ("span", t.span.toJson)]

def toJson (t : Token) : Json := .object t.jsonMembers

end Token

namespace Tree

/-- The roles of children with their indexes, as pairs. -/
def rolesJson (t : Tree) : Json :=
  .array (t.roleTable.map fun (r, i) => .array [.string r.label, .number i])

mutual

/-- A child, which says whether it is a node, a token or a placeholder. -/
def childJson : Tree → Json
  | token _ t => .object (("element", .string "token") :: t.jsonMembers)
  | missing _ k p =>
    .object [("element", .string "missing"), ("kind", .string k.name), ("position", p.toJson)]
  | node r k s cs =>
    .object [("element", .string "node"), ("kind", .string k.name), ("span", s.toJson),
      ("children", .array (childrenJson cs)), ("fields", rolesJson (node r k s cs))]

/-- Children in their order. -/
def childrenJson : List Tree → List Json
  | [] => []
  | t :: ts => childJson t :: childrenJson ts

end

/-- A tree that is no child. -/
def toJson (t : Tree) : Json :=
  match t with
  | node _ k s cs =>
    .object [("kind", .string k.name), ("span", s.toJson), ("children", .array (childrenJson cs)),
      ("fields", t.rolesJson)]
  | t => t.childJson

end Tree

namespace ScanError

def toJson (e : ScanError) : Json :=
  match e with
  | unrecognizedCharacter found s =>
    .object [("kind", .string e.name), ("found", .string (String.singleton found)),
      ("span", s.toJson)]
  | _ => .object [("kind", .string e.name), ("span", e.span.toJson)]

end ScanError

namespace ParseError

def toJson (e : ParseError) : Json :=
  .object [("kind", .string e.kind.name), ("message", .string e.message), ("span", e.span.toJson),
    ("expected", .array (e.expected.toList.map fun k => .string k.name)),
    ("found", .string e.found.name)]

end ParseError

namespace Parse

def toJson (p : Parse) : Json :=
  .object [("tree", p.tree.toJson), ("scan_errors", .array (p.scanErrors.map ScanError.toJson)),
    ("parse_errors", .array (p.parseErrors.map ParseError.toJson))]

end Parse

namespace Definition

def toJson (d : Definition) : Json :=
  .object [("kind", .string d.kind.label), ("name", .string d.name), ("line", .number d.line),
    ("column", .number d.column)]

end Definition

namespace NameSet

def toJson (s : NameSet) : Json := .array (s.toList.map .string)

end NameSet

namespace Names

def toJson (n : Names) : Json :=
  .object [("functions", n.functions.toJson), ("structs", n.structs.toJson),
    ("globals", n.globals.toJson), ("types", n.types.toJson), ("calls", n.calls.toJson)]

end Names

namespace Json

mutual

/-- The same value with the members of every object in the order of their keys. -/
def sorted : Json → Json
  | array items => array (sortedItems items)
  | object members => object ((sortedMembers members).mergeSort fun a b => a.1 ≤ b.1)
  | value => value

/-- Items with their members in order. -/
def sortedItems : List Json → List Json
  | [] => []
  | item :: items => sorted item :: sortedItems items

/-- Members with the members of their values in order. -/
def sortedMembers : List (String × Json) → List (String × Json)
  | [] => []
  | (key, value) :: members => (key, sorted value) :: sortedMembers members

end

end Json

end JassSyntax
