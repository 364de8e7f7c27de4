import JassSyntax.Grammar.Frame

/-!
# Levels of nesting

Expressions lie inside expressions and bodies inside bodies. A `Level` is what reading a construct
needs for what lies inside it: how to read an operand and how to read a body. The grammar proper
turns the level for the inside of a construct into one for its outside; at the bottom lies
`Level.cutOff`, which reads nothing and puts the nested region aside in one error node.
-/

namespace JassSyntax

/-- How to read what lies inside a construct. -/
structure Level where
  /-- Reads an expression of operators that bind at least as tightly as given. -/
  binding : Nat → Parser → Tree × Parser
  /-- Reads the statements up to one of the terminators, as the body of a frame. -/
  body : List Kind → Frame → Frame

namespace Level

/-- A single expression: every operator but the comma. -/
def expression (inner : Level) : Parser → Tree × Parser := inner.binding Power.assignment

/-- An expression or several with commas between them. -/
def expressionList (inner : Level) : Parser → Tree × Parser := inner.binding Power.comma

/-! ## The nesting limit -/

/-- The extent of a region that is put aside. -/
inductive Extent where
  /-- One operand with the operators before it. -/
  | operand
  /-- Everything up to a kind that `stop` accepts. -/
  | upTo (stop : Kind → Bool)

/-- Whether a region ends before a kind, outside all its brackets and blocks. -/
def Extent.endsBefore : Extent → Kind → Bool
  | operand, k => !k.canStartExpression
  | upTo stop, k => stop k

/-- Whether a region ends after a kind, outside all its brackets and blocks. -/
def Extent.endsAfter : Extent → Kind → Bool
  | operand, k => !k.isUnary
  | upTo _, _ => false

/-- How many brackets and blocks are open after a kind, if `open_` were before it. -/
def balanceAfter (balance : Nat) (k : Kind) : Nat :=
  if k.opensNesting then balance + 1 else if k.closesNesting then balance - 1 else balance

/-- How many of the items belong to a region of which `balance` brackets and blocks are open. -/
def regionLength (extent : Extent) : Nat → List Item → Nat
  | _, [] => 0
  | balance, item :: items =>
    let k := item.token.kind
    if balance = 0 ∧ extent.endsBefore k then 0
    else
      let after := balanceAfter balance k
      if after = 0 ∧ extent.endsAfter k then 1 else 1 + regionLength extent after items

/-- Complains about nesting beyond `limit`, unless that was the last complaint. -/
def complainTooDeep (limit : Nat) (p : Parser) : Parser :=
  if p.errors.back?.any (·.kind == .nestingTooDeep) then p else p.complain (.tooDeep limit)

/-- Puts a region aside in one flat error node. There is none if the region is empty. -/
def skipTooDeep (limit : Nat) (extent : Extent) (p : Parser) : Option Tree × Parser :=
  let p := complainTooDeep limit p
  match regionLength extent 0 p.ahead.toList with
  | 0 => (none, p)
  | n => let (t, p) := ((p.start .error).bumps n).finish; (some t, p)

/-- The level below `limit` others, where nesting is put aside. -/
def cutOff (limit : Nat) : Level where
  binding _ p :=
    match skipTooDeep limit .operand p with
    | (some t, p) => (t, p)
    | (none, p) => (p.missing .identifier, p)
  body terminators f :=
    let stop k := terminators.contains k || f.parser.closesOpenBlock k
    match skipTooDeep limit (.upTo stop) f.parser with
    | (some t, parser) =>
      { f with parser }.child (some .body) fun p => ((p.start .block).attach none t).finish
    | (none, parser) => { f with parser }

end Level

end JassSyntax
