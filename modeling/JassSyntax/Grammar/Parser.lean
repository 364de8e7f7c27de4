import JassSyntax.Grammar.Complaint
import JassSyntax.Grammar.Counted
import JassSyntax.Grammar.Item
import JassSyntax.Grammar.Vocabulary

/-!
# Parsers

A parser stands at one place of a stream of items and carries what the reading so far has left
behind: errors, the closers that enclosing blocks wait for, the depth of nesting, and the comments
of a token that has not found its place in the tree yet. Nothing here reads a construct; `Frame`
does.
-/

namespace JassSyntax

/-- A parser at one place of a stream. -/
structure Parser where
  /-- The items from here on. -/
  ahead : Counted Item
  /-- The comments after the last item. -/
  trailing : List Tree
  /-- The end-of-input token, if the stream has one. -/
  eof : Option Token
  /-- Where the end of a stream without such a token was first noticed. -/
  endNoticedAt : Option Position := none
  /-- The comments before a token that was taken and has no parent yet. -/
  pending : List Tree := []
  errors : Array ParseError := #[]
  /-- The kinds that close or continue the open blocks, innermost last. -/
  openClosers : List Kind := []
  /-- Where the last item taken ends. -/
  lastEnd : Position := .origin
  /-- How many nested expressions and bodies are being read. -/
  depth : Nat := 0
  deriving Repr, Inhabited

namespace Parser

/-- A parser before the first item. -/
def ofTokens (tokens : List Token) : Parser :=
  let stream := Items.ofTokens tokens
  { ahead := .ofList stream.items, trailing := stream.trailing, eof := stream.eof }

/-! ## Looking -/

/-- How many items are still to be taken. -/
def remaining (p : Parser) : Nat := p.ahead.length

/-- The kind of the current token. -/
def kind (p : Parser) : Kind :=
  match p.ahead.head? with
  | some item => item.token.kind
  | none => .eof

/-- The span of the end of input. A missing end-of-input token counts as standing where the last
item before it ended when the end was first noticed. -/
def endSpan (p : Parser) : Span :=
  match p.eof with
  | some t => t.span
  | none => Span.empty (p.endNoticedAt.getD p.lastEnd)

/-- The span of the current token. -/
def span (p : Parser) : Span :=
  match p.ahead.head? with
  | some item => item.token.span
  | none => p.endSpan

/-- Fixes the place of a missing end of input. -/
def noticeEnd (p : Parser) : Parser :=
  { p with endNoticedAt := some (p.endNoticedAt.getD p.lastEnd) }

/-- The kind of the token after the current one. Looking past the last item notices the end. -/
def second (p : Parser) : Kind × Parser :=
  match p.ahead.tail.head? with
  | some next => (next.token.kind, p)
  | none => (.eof, p.noticeEnd)

/-- A placeholder for a token that is not there. -/
def missing (p : Parser) (kind : Kind) : Tree := .missing none kind p.lastEnd

/-- Whether an open block waits for the kind. -/
def closesOpenBlock (p : Parser) (k : Kind) : Bool := p.openClosers.contains k

/-! ## Changing -/

/-- Goes past the current item. -/
def advance (p : Parser) (item : Item) : Parser :=
  { p with ahead := p.ahead.tail, lastEnd := item.token.span.stop }

/-- Takes the current token as a tree of its own. Its comments wait until that is attached. At the
end of input nothing is taken. -/
def takeLeaf (p : Parser) : Tree × Parser :=
  match p.ahead.head? with
  | some item =>
    (.token none item.token, { p.advance item with pending := p.pending ++ item.comments })
  | none => (p.missing .eof, p)

/-- Records a complaint about the current token, at a span. -/
def complainAt (p : Parser) (span : Span) (c : Complaint) : Parser :=
  { p with errors := p.errors.push (c.toError span p.kind) }

/-- Records a complaint about the current token, where it stands. -/
def complain (p : Parser) (c : Complaint) : Parser := p.complainAt p.span c

/-- One more level of nesting, unless `limit` levels are in use. -/
def descend? (p : Parser) (limit : Nat) : Option Parser :=
  if p.depth < limit then some { p with depth := p.depth + 1 } else none

/-- Back from a level of nesting. -/
def ascend (p : Parser) : Parser := { p with depth := p.depth - 1 }

/-- Makes the kinds `closers` end the bodies to be read. -/
def enterBlock (p : Parser) (closers : List Kind) : Parser :=
  { p with openClosers := p.openClosers ++ closers }

/-- Forgets all closers but the outermost `mark`. -/
def leaveBlock (p : Parser) (mark : Nat) : Parser :=
  { p with openClosers := p.openClosers.take mark }

end Parser

end JassSyntax
