import JassSyntax.Tree.Basic

/-!
# Items

The grammar sees only the tokens that are no comments. An item is such a token together with the
comments before it; a block comment's parts have become one node by then. A stream of items ends at
the first end-of-input token, if there is one, and may have comments after its last item.
-/

namespace JassSyntax

namespace Tree

/-- A node that spans from its first child to its last. Without children it is empty and lies at
`fallback`. -/
def ofChildren (kind : NodeKind) (fallback : Position) (children : List Tree) : Tree :=
  let span := match children.head?, children.getLast? with
    | some first, some last => first.span.cover last.span
    | _, _ => Span.empty fallback
  node none kind span children

/-- A block comment of up to three parts. -/
def blockComment (opening : Token) (rest : List Tree) : Tree :=
  ofChildren .blockComment opening.span.start (token (some .opening) opening :: rest)

end Tree

/-- A token of the grammar with the comments before it. -/
structure Item where
  comments : List Tree
  token : Token
  deriving Repr, Inhabited

/-- A token stream as the grammar sees it. -/
structure Items where
  items : List Item
  /-- The comments after the last item. -/
  trailing : List Tree
  /-- The end-of-input token. Where the stream has none, nothing is said about its place. -/
  eof : Option Token
  deriving Repr, Inhabited

namespace Items

/-- The first token as a child in a role, if it is of that kind, and the tokens after it. -/
def takePart (kind : Kind) (role : Role) : List Token → List Tree × List Token
  | t :: ts => if t.kind = kind then ([.token (some role) t], ts) else ([], t :: ts)
  | [] => ([], [])

theorem takePart_length (kind : Kind) (role : Role) (ts : List Token) :
    (takePart kind role ts).2.length ≤ ts.length := by
  unfold takePart
  split
  · split <;> simp
  · simp

/-- Groups the tokens to come, after `items` and the `comments` that wait for the next item. -/
def group (items : Array Item) (comments : Array Tree) (tokens : List Token) : Items :=
  match tokens with
  | [] => ⟨items.toList, comments.toList, none⟩
  | t :: ts =>
    match t.kind with
    | .eof => ⟨items.toList, comments.toList, some t⟩
    | .lineComment | .blockCommentContent | .blockCommentEnd =>
      group items (comments.push (.token none t)) ts
    | .blockCommentStart =>
      let content := takePart .blockCommentContent .content ts
      let closing := takePart .blockCommentEnd .closing content.2
      group items (comments.push (.blockComment t (content.1 ++ closing.1))) closing.2
    | _ => group (items.push ⟨comments.toList, t⟩) #[] ts
  termination_by tokens.length
  decreasing_by
    all_goals
      have first := takePart_length .blockCommentContent .content ts
      have second := takePart_length .blockCommentEnd .closing
        (takePart .blockCommentContent .content ts).2
      simp only [List.length_cons]
      omega

/-- The stream of `tokens` up to its first end of input. -/
def ofTokens (tokens : List Token) : Items := group #[] #[] tokens

end Items

end JassSyntax
