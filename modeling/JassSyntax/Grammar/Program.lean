import JassSyntax.Grammar.Statement

/-!
# Programs

A program is a list of statements up to the end of input. Reading never fails and never loses a
token: what fits nowhere is put aside in error nodes. Nesting is followed down to a limit;
`Level.stack` stacks that many levels.
-/

namespace JassSyntax

namespace Level

/-- The level around `inner`: the grammar itself, as long as the limit leaves room. -/
def above (limit : Nat) (inner : Level) : Level where
  binding power p :=
    match p.descend? limit with
    | none => (cutOff limit).binding power p
    | some p =>
      let (t, p) := Expression.binding inner power p
      (t, p.ascend)
  body terminators f :=
    match f.parser.descend? limit with
    | none => (cutOff limit).body terminators f
    | some parser =>
      let f := Statement.body inner terminators { f with parser }
      { f with parser := f.parser.ascend }

/-- So many levels on top of the cut-off. -/
def stack (limit : Nat) : Nat → Level
  | 0 => cutOff limit
  | room + 1 => (stack limit room).above limit

end Level

namespace Program

/-- One statement, or one token that begins none, put aside. Tells whether there was either. -/
def step (inner : Level) (f : Frame) : Frame × Bool :=
  let k := f.current
  if k = .eof then (f, false)
  else if k.canStartStatement then (f.child none (Statement.statement inner), true)
  else ((f.complain .strayAtTopLevel).skipAsError, true)

/-- The finished program, which holds the last comments too and spans from the start of the text to
its end. -/
def finish (f : Frame) : Tree :=
  let children := f.flush.children ++ f.parser.trailing
  let stop := f.parser.endSpan.stop
  let stop := if f.parser.lastEnd.offset ≤ stop.offset then stop else f.parser.lastEnd
  .node none .program ⟨.origin, stop⟩ children.toList

/-- The program in a stream of tokens, with up to `limit` levels of nesting, and its errors. -/
def parseWithin (limit : Nat) (tokens : List Token) : Tree × List ParseError :=
  let f := ((Parser.ofTokens tokens).start .program).loop (step (.stack limit limit))
  (finish f, f.parser.errors.toList)

/-- The deepest nesting of expressions and bodies that is followed. -/
def maxDepth : Nat := 100

/-- The program in a stream of tokens, and the errors in it. -/
def parse (tokens : List Token) : Tree × List ParseError := parseWithin maxDepth tokens

end Program

end JassSyntax
