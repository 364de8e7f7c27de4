import JassSyntax.Proofs.Derivation.Statements
import JassSyntax.Proofs.Spans.Reading
import JassSyntax.Proofs.Spans.Scanning

/-!
# Programs in order

A stream of items keeps the order of its tokens, so the children of a program are laid from the
start of the text to its end. No production lets a node go without children.
-/

namespace JassSyntax

variable {source : String} {a b : Nat}

namespace Items

/-- The trees of a stream of items in their order. -/
def trees (s : Items) : List Tree := s.items.flatMap Item.trees ++ s.trailing

theorem laid_takePart {kind : Kind} (h : kind ≠ .eof) (role : Role) {ts : List Token}
    (laid : Laid source a (tokenTrees (beforeEof ts)) b) :
    ∃ m, Laid source a (takePart kind role ts).1 m ∧
      Laid source m (tokenTrees (beforeEof (takePart kind role ts).2)) b := by
  cases ts with
  | nil => exact ⟨a, Nat.le_refl a, laid⟩
  | cons t ts =>
      by_cases ht : t.kind = kind
      · rw [beforeEof_cons (ht ▸ h)] at laid
        obtain ⟨m, part, rest⟩ := laid.uncons
        refine ⟨m, ?_, ?_⟩
        · rw [takePart, if_pos ht]
          exact part.withRole (some role)
        · rw [takePart, if_pos ht]
          exact rest
      · refine ⟨a, ?_, ?_⟩
        · rw [takePart, if_neg ht]
          exact .nil (Nat.le_refl a)
        · rw [takePart, if_neg ht]
          exact laid

theorem laid_blockComment {t : Token} {parts : List Tree} {m : Nat}
    (first : Laid source a [Tree.token none t] m) (rest : Laid source m parts b) :
    Laid source a [Tree.blockComment t parts] b :=
  ((first.withRole (some .opening)).append rest).ofChildren NodeKind.noConfusion fun none => by
    cases none

theorem laid_group (items : Array Item) (comments : Array Tree) (ts : List Token)
    (laid : Laid source a
      (items.toList.flatMap Item.trees ++ comments.toList ++ tokenTrees (beforeEof ts)) b) :
    Laid source a (group items comments ts).trees b := by
  fun_induction group items comments ts with
  | case1 items comments => simpa [trees, beforeEof, tokenTrees] using laid
  | case2 items comments t ts h => simpa [trees, beforeEof, h, tokenTrees] using laid
  | case3 items comments t ts h ih | case4 items comments t ts h ih
  | case5 items comments t ts h ih =>
      refine ih ?_
      rw [beforeEof_cons (by rw [h]; decide)] at laid
      simpa [tokenTrees] using laid
  | case6 items comments t ts h content closing ih =>
      refine ih ?_
      rw [beforeEof_cons (by rw [h]; decide)] at laid
      obtain ⟨m, before, rest⟩ := laid.split
      obtain ⟨_, opening, rest⟩ := rest.uncons
      obtain ⟨_, first, rest⟩ :=
        laid_takePart (show Kind.blockCommentContent ≠ .eof by decide) .content rest
      obtain ⟨_, second, rest⟩ :=
        laid_takePart (show Kind.blockCommentEnd ≠ .eof by decide) .closing rest
      have comment := before.append (laid_blockComment opening (first.append second))
      simpa [List.append_assoc] using comment.append rest
  | case7 items comments t ts hEof hLine hContent hEnd hStart ih =>
      refine ih ?_
      rw [beforeEof_cons hEof] at laid
      simpa [tokenTrees, Item.trees] using laid

end Items

namespace Scanner

variable {ts : List Token} {stop : Position}

theorem Ended.laid_beforeEof (h : Ended source ts stop) :
    Laid source 0 (tokenTrees (Items.beforeEof ts)) stop.offset := by
  obtain ⟨front, last, rfl, running, eof, _⟩ := h.last
  have before : Items.beforeEof (front ++ [last]) = front := by
    rw [Items.beforeEof, List.takeWhile_append_of_pos fun t mem => by simpa using running t mem]
    simp [eof]
  have laid := h.laid
  rw [tokenTrees, List.map_append] at laid
  obtain ⟨m, first, rest⟩ := laid.split
  rw [before]
  exact first.mono rest.le

theorem Ended.find?_eof (h : Ended source ts stop) :
    ∃ last, ts.find? (fun t => t.kind == .eof) = some last ∧ last.span = Span.empty stop := by
  obtain ⟨front, last, rfl, running, eof, span⟩ := h.last
  refine ⟨last, ?_, span⟩
  rw [List.find?_append, List.find?_eq_none.mpr fun t mem => by simpa using running t mem]
  simp [eof]

end Scanner

namespace Program

open Scanner (Ended)

variable {tokens : List Token} {stop : Position}

theorem stands_ofTokens (ended : Ended source tokens stop) :
    (Parser.ofTokens tokens).Stands source stop.offset := by
  have laid : Laid source 0 (Items.group #[] #[] tokens).trees stop.offset :=
    Items.laid_group #[] #[] tokens (by simpa using ended.laid_beforeEof)
  exact ⟨Position.placed_origin source, laid⟩

/-- The end of input of a text lies where the text ends. -/
theorem endSpan_of_ended (ended : Ended source tokens stop) {p : Parser}
    (later : (Parser.ofTokens tokens).Later p) : p.endSpan = Span.empty stop := by
  obtain ⟨last, found, span⟩ := ended.find?_eof
  have eof : p.eof = some last := by
    rw [later.eof]
    exact (Items.eof_group #[] #[] tokens).trans found
  rw [Parser.endSpan, eof]
  exact span

theorem span_finish {f : Frame} (last : f.parser.endSpan = Span.empty stop)
    (le : f.parser.lastEnd.offset ≤ stop.offset) : (finish f).span = ⟨.origin, stop⟩ := by
  show Span.mk _ (if _ then _ else _) = _
  rw [last]
  exact congrArg (Span.mk .origin) (if_pos le)

theorem children_finish {f : Frame} (pending : f.parser.pending = [])
    (ahead : f.parser.ahead.toList = []) :
    (finish f).children = f.children.toList ++ f.parser.toCome := by
  simp [finish, Tree.children, Frame.flush, Parser.toCome, pending, ahead]

/-- A program spans its text, and its children are laid in it. -/
theorem laid_parseWithin (limit : Nat) (ended : Ended source tokens stop) :
    (parseWithin limit tokens).1.span = ⟨.origin, stop⟩ ∧
      Laid source 0 (parseWithin limit tokens).1.children stop.offset := by
  let start := (Parser.ofTokens tokens).start .program
  have grown : Grows start (start.loop (step (.stack limit limit))) := loop_grows limit tokens
  have before := stands_ofTokens ended
  have stands := grown.stands before
  have filled := grown.laid before rfl (Frame.laid_start _ .program)
  have tidy := grown.tidy (Parser.tidy_ofTokens tokens)
  have ahead := tidy.ahead_eq_nil (loop_current (Level.stack_progresses limit limit) start)
  refine ⟨span_finish (endSpan_of_ended ended grown.later) stands.laid.le, ?_⟩
  have children := children_finish (grown.pending_nil rfl) ahead
  exact children ▸ filled.append stands.laid

end Program

/-! ## No node is empty -/

namespace Production

open Computability

variable {m : Tolerance} {L M : Language Tree}

@[simp] theorem nil_mem_mul : [] ∈ L * M ↔ [] ∈ L ∧ [] ∈ M := by
  simp [Language.mem_mul]

@[simp] theorem nil_mem_sup : [] ∈ L ⊔ M ↔ [] ∈ L ∨ [] ∈ M := .rfl

@[simp] theorem nil_notMem_one (C : Tree → Prop) : [] ∉ one C := by
  rintro ⟨t, empty, _⟩
  cases empty

@[simp] theorem nil_mem_repaired : [] ∈ repaired m L ↔ m ≠ .clean ∧ [] ∈ L := .rfl

@[simp] theorem nil_notMem_operationOf (passes : Kind → Prop) : [] ∉ operationOf m passes := by
  rintro ⟨op, power, side, _, _, word⟩
  simp [operation, leftOperand] at word

/-- Only a program may be empty. -/
theorem nil_notMem_production {k : NodeKind} (inner : k ≠ .program) : [] ∉ production m k := by
  cases k
  case program => exact absurd rfl inner
  all_goals
    simp [production, statement, junk, node, nodeOf, token, tokenOf, tokens,
      modifier, commaSeparated, wanted, placeholder, expression, operand, plainOperand,
      leftOperand, base, member, method, arguments, parameters]

end Production

namespace Program

/-- Every node of a program has children. -/
theorem children_ne_nil (limit : Nat) (tokens : List Token) :
    ∀ e ∈ (parseWithin limit tokens).1.elements, ∀ k, e.nodeKind? = some k → k ≠ .program →
      e.children ≠ [] := by
  intro e mem k node inner empty
  have lawful := parseWithin_lawful (m := .full) limit tokens trivial
  rcases lawful.elements (remarked_parseWithin limit tokens) e mem with built | comment
  · have word := built.derived k node
    rw [Tree.parts, empty] at word
    exact Production.nil_notMem_production inner word
  · cases comment with
    | token => cases node
    | block => cases empty

end Program

end JassSyntax
