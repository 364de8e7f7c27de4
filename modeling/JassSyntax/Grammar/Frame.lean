import JassSyntax.Grammar.Loop
import JassSyntax.Grammar.Parser

/-!
# Frames

A frame is a node under construction: its kind, its children so far, and the parser that reads on
from there. Reading a construct is a chain of frame operations, which take tokens as children, put
parsed trees in, or insist on a token and repair its absence. Comments always become children of
the node that gets the next item.
-/

namespace JassSyntax

/-- A node under construction. -/
structure Frame where
  kind : NodeKind
  /-- The span of the token at which the node began. -/
  opener : Span
  children : Array Tree := #[]
  parser : Parser
  deriving Repr, Inhabited

/-- Begins a node at the current token. -/
def Parser.start (p : Parser) (kind : NodeKind) : Frame where
  kind := kind
  opener := p.span
  parser := p

namespace Frame

/-- The kind of the current token. -/
def current (f : Frame) : Kind := f.parser.kind

/-- The kind of the token after the current one. -/
def second (f : Frame) : Kind × Frame :=
  let (k, parser) := f.parser.second
  (k, { f with parser })

/-! ## Children -/

/-- Makes the comments that wait for a parent children of the node. -/
def flush (f : Frame) : Frame :=
  { f with
    children := f.children ++ f.parser.pending
    parser := { f.parser with pending := [] } }

/-- Makes a tree a child in a role. -/
def attach (f : Frame) (role : Option Role) (t : Tree) : Frame :=
  let f := f.flush
  { f with children := f.children.push (t.withRole role) }

/-- Takes the current token as a child in a role, after its comments. -/
def bump (f : Frame) (role : Option Role := none) : Frame :=
  let f := f.flush
  match f.parser.ahead.head? with
  | some item =>
    { f with
      children := (f.children ++ item.comments).push (.token role item.token)
      parser := f.parser.advance item }
  | none => f

/-- Takes `n` tokens as children. -/
def bumps (f : Frame) : Nat → Frame
  | 0 => f
  | n + 1 => f.bump.bumps n

/-- Takes the current token if it is of that kind. Tells whether it was. -/
def eat (f : Frame) (kind : Kind) : Frame × Bool :=
  if f.current = kind then (f.bump, true) else (f, false)

/-- Puts the tree that `read` gives in as a child in a role. -/
def child (f : Frame) (role : Option Role) (read : Parser → Tree × Parser) : Frame :=
  let (t, parser) := read f.parser
  { f with parser }.attach role t

/-- The finished node. -/
def finish (f : Frame) : Tree × Parser :=
  (.ofChildren f.kind f.parser.lastEnd f.children.toList, f.parser)

/-! ## Repairs -/

/-- Records a complaint about the current token, where it stands. -/
def complain (f : Frame) (c : Complaint) : Frame := { f with parser := f.parser.complain c }

/-- Puts the current token aside in an error node. -/
def skipAsError (f : Frame) : Frame :=
  f.child none fun p => (p.start .error).bump.finish

/-- Puts a placeholder in for a token that is not there. -/
def insertMissing (f : Frame) (role : Option Role) (kind : Kind) : Frame :=
  f.attach role (f.parser.missing kind)

/-- Takes the token if it is of the kind `wanted`, and else complains. Then a stray token right
before the wanted one is skipped, and otherwise a placeholder is put in. Tells whether the token
was taken. -/
def demand (f : Frame) (wanted : Kind) (role : Option Role) (complaint : Complaint) :
    Frame × Bool :=
  if f.current = wanted then (f.bump role, true)
  else
    let found := f.current
    let f := f.complain complaint
    let (next, f) := if found.isStray then f.second else (.eof, f)
    if found.isStray ∧ next = wanted then (f.skipAsError.bump role, true)
    else (f.insertMissing role wanted, false)

/-- Insists on a token. -/
def expect (f : Frame) (wanted : Kind) (role : Option Role := none) : Frame :=
  (f.demand wanted role (.unexpected wanted)).1

/-- Insists on an identifier that fills a role of the construct. -/
def expectName (f : Frame) (role : Role) : Frame :=
  (f.demand .identifier (some role) (.absentPart role f.kind .identifier)).1

/-! ## Loops -/

/-- Repeats a step that tells whether to go on, as long as it takes tokens. -/
def loop (f : Frame) (step : Frame → Frame × Bool) : Frame :=
  Loop.run (fun f => f.parser.remaining) step f

/-- One or more parts with commas between them. -/
def commaSeparated (f : Frame) (part : Frame → Frame) : Frame :=
  f.loop fun f => (part f).eat .comma

/-- Takes tokens as children in a role while their kind passes. -/
def bumpWhile (f : Frame) (role : Option Role) (passes : Kind → Bool) : Frame :=
  f.loop fun f => if passes f.current then (f.bump role, true) else (f, false)

end Frame

end JassSyntax
